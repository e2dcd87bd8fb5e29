import SideDns.Library.Transition
import SideDns.Lowercase
import SideDns.Store.Concurrent

namespace SideDns

open FiniteMap (IterationOrder)
open Transition (run)

def Mutation.slot : Mutation → Lifetime × String
  | add rule => (.persistent, rule.domain)
  | addEphemeral rule => (.ephemeral, rule.domain)
  | remove domain => (.persistent, domain)
  | removeEphemeral domain => (.ephemeral, domain)

def Mutation.value : Mutation → Option DnsRule
  | add rule => some rule
  | addEphemeral rule => some rule
  | remove _ => none
  | removeEphemeral _ => none

namespace IpcRequest

def domain? : IpcRequest → Option String
  | add domain _ _ => some domain
  | addEphemeral domain _ _ => some domain
  | remove domain => some domain
  | removeEphemeral domain => some domain
  | resolve domain => some domain
  | _ => none

def withDomain (domain : String) : IpcRequest → IpcRequest
  | add _ target https => add domain target https
  | addEphemeral _ target https => addEphemeral domain target https
  | remove _ => remove domain
  | removeEphemeral _ => removeEphemeral domain
  | resolve _ => resolve domain
  | request => request

def isQuery : IpcRequest → Bool
  | list => true
  | resolve _ => true
  | status => true
  | subscribe => true
  | _ => false

theorem mutation_query (lib : TextLibrary) {request : IpcRequest} (h : request.isQuery = true) :
    request.mutation lib = none := by
  cases request with
  | list => rfl
  | resolve domain => rfl
  | status => rfl
  | subscribe => rfl
  | _ => cases h

def addsEphemeral (lib : TextLibrary) : IpcRequest → Bool
  | addEphemeral domain _ _ => validateDomain lib domain
  | _ => false

end IpcRequest

namespace InnerRuleStore

theorem WellFormed.entry_apply {s : InnerRuleStore} (h : s.WellFormed) (m : Mutation)
    (kind : Lifetime) (domain : String) :
    (m.apply s).1.entry kind domain =
      if (kind, domain) = m.slot then m.value else s.entry kind domain := by
  cases m with
  | add rule =>
    cases kind with
    | ephemeral =>
      exact (if_neg (by simp [Mutation.slot])).symm
    | persistent =>
      refine (h.persistent.lookup_toMap_insert rule domain).trans ?_
      simp [Mutation.slot, Mutation.value, entry, layer]
  | addEphemeral rule =>
    cases kind with
    | ephemeral =>
      refine (h.ephemeral.lookup_toMap_insert rule domain).trans ?_
      simp [Mutation.slot, Mutation.value, entry, layer]
    | persistent =>
      exact (if_neg (by simp [Mutation.slot])).symm
  | remove pattern =>
    cases kind with
    | ephemeral =>
      exact (if_neg (by simp [Mutation.slot])).symm
    | persistent =>
      refine (h.persistent.lookup_toMap_remove pattern domain).trans ?_
      simp [Mutation.slot, Mutation.value, entry, layer]
  | removeEphemeral pattern =>
    cases kind with
    | ephemeral =>
      refine (h.ephemeral.lookup_toMap_remove pattern domain).trans ?_
      simp [Mutation.slot, Mutation.value, entry, layer]
    | persistent =>
      exact (if_neg (by simp [Mutation.slot])).symm

end InnerRuleStore

namespace AppState

variable {lib : TextLibrary}

def serve (lib : TextLibrary) (order : IterationOrder String DnsRule) (st : AppState)
    (requests : List IpcRequest) : AppState :=
  run (fun st request => (st.handle lib order request).1) st requests

def Untouched (st st' : AppState) : Prop := st'.store = st.store ∧ st'.events = st.events

structure Wrote (st st' : AppState) (slot : Lifetime × String) (value : Option DnsRule)
    (event : DnsEvent) : Prop where
  entries : ∀ kind domain, st'.store.inner.entry kind domain =
    if (kind, domain) = slot then value else st.store.inner.entry kind domain
  sent : st'.events.sent = st.events.sent ++ [event]

def Performed (lib : TextLibrary) (st st' : AppState) : IpcRequest → Prop
  | .add domain target https =>
      let rule : DnsRule := ⟨lib.toLowercase domain, target, https⟩
      Wrote st st' (.persistent, lib.toLowercase domain) (some rule) (.ruleAdded rule)
  | .addEphemeral domain target https =>
      let rule : DnsRule := ⟨lib.toLowercase domain, target, https⟩
      Wrote st st' (.ephemeral, lib.toLowercase domain) (some rule) (.ephemeralAdded rule)
  | .remove domain => ∃ rule,
      st.store.inner.entry .persistent (lib.toLowercase domain) = some rule ∧
      Wrote st st' (.persistent, lib.toLowercase domain) none (.ruleRemoved rule)
  | .removeEphemeral domain => ∃ rule,
      st.store.inner.entry .ephemeral (lib.toLowercase domain) = some rule ∧
      Wrote st st' (.ephemeral, lib.toLowercase domain) none (.ephemeralRemoved rule)
  | .stop => True
  | _ => Untouched st st'

theorem handle_announced {order : IterationOrder String DnsRule} {st : AppState}
    {request : IpcRequest} {m : Mutation} {rule : DnsRule} (hm : request.mutation lib = some m)
    (ha : m.announced st.store.inner = some rule) :
    st.handle lib order request =
      (({ st with store := st.store.mutate m } : AppState).dispatch (m.event rule), .ok) := by
  have hacc := st.accept_cases lib order request
  rw [handle]
  generalize st.accept lib order request = accepted at hacc
  cases hacc with
  | announcing m' rule' hm' ha' =>
    obtain rfl := Option.some.inj (hm.symm.trans hm')
    obtain rfl := Option.some.inj (ha.symm.trans ha')
    rfl
  | stopping hs =>
    rw [hs] at hm
    cases hm
  | replied response hn =>
    rw [hn m hm] at ha
    cases ha

theorem handle_unannounced (order : IterationOrder String DnsRule) {st : AppState}
    {request : IpcRequest} {m : Mutation} (hm : request.mutation lib = some m)
    (ha : m.announced st.store.inner = none) :
    ∃ message, st.handle lib order request = (st, .error message) := by
  have hsame := RuleStore.mutate_unannounced ha
  cases IpcRequest.mutation_eq_some_iff.mp hm with
  | add hv => cases ha
  | addEphemeral hv => cases ha
  | @remove domain hv =>
    have hr : (st.store.remove (lib.toLowercase domain)).2 = none := ha
    have hs : (st.store.remove (lib.toLowercase domain)).1 = st.store := hsame
    simp only [handle, accept, hv, hr, hs, if_true, finish, noRule]
    exact ⟨_,rfl⟩
  | @removeEphemeral domain hv =>
    have hr : (st.store.removeEphemeral (lib.toLowercase domain)).2 = none := ha
    have hs : (st.store.removeEphemeral (lib.toLowercase domain)).1 = st.store := hsame
    simp only [handle, accept, hv, hr, hs, if_true, finish, noEphemeralRule]
    exact ⟨_,rfl⟩

theorem handle_invalid (order : IterationOrder String DnsRule) (st : AppState)
    {request : IpcRequest} (hr : request.isMutating = true) (hm : request.mutation lib = none) :
    ∃ message, st.handle lib order request = (st, .error message) := by
  obtain ⟨domain,hacc⟩ := st.accept_rejects lib order request hr hm
  rw [handle, hacc]
  exact ⟨_,rfl⟩

inductive Handled (lib : TextLibrary) (st : AppState) (request : IpcRequest) :
    AppState × IpcResponse → Prop where
  | performed (m : Mutation) (rule : DnsRule) (hm : request.mutation lib = some m)
      (ha : m.announced st.store.inner = some rule) :
      Handled lib st request
        (({ st with store := st.store.mutate m } : AppState).dispatch (m.event rule), .ok)
  | refused (message : String) (hr : request.isMutating = true)
      (hm : ∀ m, request.mutation lib = some m → m.announced st.store.inner = none) :
      Handled lib st request (st, .error message)
  | stopped (hs : request = .stop) :
      Handled lib st request ((st.dispatch .daemonStopped).cancel, .ok)
  | answered (response : IpcResponse) (hr : request.isMutating = false) (hs : request ≠ .stop) :
      Handled lib st request (st, response)

theorem handle_cases (lib : TextLibrary) (order : IterationOrder String DnsRule) (st : AppState)
    (request : IpcRequest) : Handled lib st request (st.handle lib order request) := by
  cases hr : request.isMutating with
  | true =>
    cases hm : request.mutation lib with
    | some m =>
      cases ha : m.announced st.store.inner with
      | some rule =>
        rw [handle_announced hm ha]
        exact .performed m rule hm ha
      | none =>
        obtain ⟨message,heq⟩ := handle_unannounced order hm ha
        rw [heq]
        refine .refused message hr fun m' hm' => ?_
        obtain rfl := Option.some.inj (hm.symm.trans hm')
        exact ha
    | none =>
      obtain ⟨message,heq⟩ := handle_invalid order st hr hm
      rw [heq]
      exact .refused message hr (by simp [hm])
  | false =>
    cases request with
    | list => exact .answered _ rfl (by simp)
    | status => exact .answered _ rfl (by simp)
    | subscribe => exact .answered _ rfl (by simp)
    | stop => exact .stopped rfl
    | resolve domain =>
      simp only [handle, accept]
      split <;> exact .answered _ rfl (by simp)
    | _ => cases hr

theorem store_handle (lib : TextLibrary) (order : IterationOrder String DnsRule) (st : AppState)
    (request : IpcRequest) :
    (st.handle lib order request).1.store =
      match request.mutation lib with
      | some m => st.store.mutate m
      | none => st.store := by
  have hcase := st.handle_cases lib order request
  generalize st.handle lib order request = handled at hcase
  cases hcase with
  | performed m rule hm ha =>
    rw [hm]
    rfl
  | refused message hr hm =>
    cases hm' : request.mutation lib with
    | some m => exact (RuleStore.mutate_unannounced (hm m hm')).symm
    | none => rfl
  | stopped hs =>
    rw [hs]
    rfl
  | answered response hr hs =>
    cases request <;> first | rfl | cases hr

theorem inner_handle_iff {P : InnerRuleStore → Prop} {ok : Mutation → Prop} {st : AppState}
    (hp : P st.store.inner) (happly : ∀ m : Mutation, P (m.apply st.store.inner).1 ↔ ok m)
    (order : IterationOrder String DnsRule) (request : IpcRequest) :
    P (st.handle lib order request).1.store.inner ↔
      ∀ m, request.mutation lib = some m → ok m := by
  rw [store_handle]
  cases request.mutation lib with
  | none => simpa using hp
  | some m =>
    refine (happly m).trans ⟨fun hok m' hm => ?_,fun hok => hok m rfl⟩
    obtain rfl := Option.some.inj hm
    exact hok

theorem serve_invariant_iff (lib : TextLibrary) (order : IterationOrder String DnsRule)
    {P : AppState → Prop} {ok : IpcRequest → Prop} (hnew : P AppState.new)
    (hhandle : ∀ st request, P st → (P (st.handle lib order request).1 ↔ ok request))
    (requests : List IpcRequest) :
    (∀ before, before <+: requests → P (serve lib order AppState.new before)) ↔
      ∀ request ∈ requests, ok request :=
  (Transition.guarded_iff_invariant P hhandle hnew).symm.trans
    (Transition.guarded_iff_forall AppState.new)

theorem announced_remove (st : AppState) (domain : String) :
    (Mutation.remove domain).announced st.store.inner =
      st.store.inner.entry .persistent domain :=
  st.store.wellFormed.persistent.remove_returns domain

theorem announced_removeEphemeral (st : AppState) (domain : String) :
    (Mutation.removeEphemeral domain).announced st.store.inner =
      st.store.inner.entry .ephemeral domain :=
  st.store.wellFormed.ephemeral.remove_returns domain

theorem wrote_mutate (st : AppState) (m : Mutation) (event : DnsEvent) :
    Wrote st (({ st with store := st.store.mutate m } : AppState).dispatch event) m.slot m.value
      event :=
  ⟨st.store.wellFormed.entry_apply m,rfl⟩

theorem handle_ok_iff {order : IterationOrder String DnsRule} {st : AppState}
    {request : IpcRequest} {m : Mutation} (hm : request.mutation lib = some m) :
    (st.handle lib order request).2 = .ok ↔ ∃ rule, m.announced st.store.inner = some rule := by
  cases ha : m.announced st.store.inner with
  | some rule =>
    rw [handle_announced hm ha]
    simp
  | none =>
    obtain ⟨message,heq⟩ := handle_unannounced order hm ha
    rw [heq]
    simp

theorem handle_error {order : IterationOrder String DnsRule} {st : AppState}
    {request : IpcRequest} {message : String}
    (h : (st.handle lib order request).2 = .error message) :
    Untouched st (st.handle lib order request).1 := by
  have hcase := st.handle_cases lib order request
  generalize st.handle lib order request = handled at h hcase
  cases hcase with
  | performed m rule hm ha => cases h
  | refused message hr hm => exact ⟨rfl,rfl⟩
  | stopped hs => cases h
  | answered response hr hs => exact ⟨rfl,rfl⟩

theorem handle_query (order : IterationOrder String DnsRule) (st : AppState)
    {request : IpcRequest} (hq : request.isQuery = true) :
    Untouched st (st.handle lib order request).1 := by
  have hcase := st.handle_cases lib order request
  generalize st.handle lib order request = handled at hcase
  cases hcase with
  | performed m rule hm ha =>
    rw [IpcRequest.mutation_query lib hq] at hm
    cases hm
  | refused message hr hm => exact ⟨rfl,rfl⟩
  | stopped hs =>
    rw [hs] at hq
    cases hq
  | answered response hr hs => exact ⟨rfl,rfl⟩

theorem performed_mutation {st : AppState} {request : IpcRequest} {m : Mutation} {rule : DnsRule}
    (hm : request.mutation lib = some m) (ha : m.announced st.store.inner = some rule) :
    Performed lib st
      (({ st with store := st.store.mutate m } : AppState).dispatch (m.event rule)) request := by
  have hw := st.wrote_mutate m (m.event rule)
  cases IpcRequest.mutation_eq_some_iff.mp hm with
  | add hv =>
    obtain rfl := Option.some.inj ha
    exact hw
  | addEphemeral hv =>
    obtain rfl := Option.some.inj ha
    exact hw
  | remove hv => exact ⟨rule,(st.announced_remove _).symm.trans ha,hw⟩
  | removeEphemeral hv => exact ⟨rule,(st.announced_removeEphemeral _).symm.trans ha,hw⟩

theorem handle_ok {order : IterationOrder String DnsRule} {st : AppState} {request : IpcRequest}
    (h : (st.handle lib order request).2 = .ok) :
    Performed lib st (st.handle lib order request).1 request := by
  have hcase := st.handle_cases lib order request
  generalize st.handle lib order request = handled at h hcase
  cases hcase with
  | performed m rule hm ha => exact performed_mutation hm ha
  | refused message hr hm => cases h
  | stopped hs =>
    rw [hs]
    trivial
  | answered response hr hs =>
    cases request with
    | stop => exact absurd rfl hs
    | list => exact ⟨rfl,rfl⟩
    | resolve domain => exact ⟨rfl,rfl⟩
    | status => exact ⟨rfl,rfl⟩
    | subscribe => exact ⟨rfl,rfl⟩
    | _ => cases hr

theorem handle_withDomain (hl : lib.Unicode) (order : IterationOrder String DnsRule)
    (st : AppState) {request : IpcRequest} {domain other : String}
    (hd : request.domain? = some domain) (hv : validateDomain lib domain = true)
    (ho : Utf8.eqIgnoreAsciiCase domain other = true) :
    st.handle lib order (request.withDomain other) = st.handle lib order request := by
  obtain ⟨hv',hlower⟩ := validateDomain_eqIgnoreAsciiCase hl hv ho
  cases request <;> cases hd <;>
    simp only [IpcRequest.withDomain, handle, accept, hv, hv', hlower, if_true]

structure AllOrNothing (lib : TextLibrary) (order : IterationOrder String DnsRule)
    (st : AppState) (request : IpcRequest) : Prop where
  error : ∀ message, (st.handle lib order request).2 = .error message →
    Untouched st (st.handle lib order request).1
  ok : (st.handle lib order request).2 = .ok →
    Performed lib st (st.handle lib order request).1 request
  query : request.isQuery = true → Untouched st (st.handle lib order request).1
  remove : ∀ domain, request = .remove domain → validateDomain lib domain = true →
    ((st.handle lib order request).2 = .ok ↔
      ∃ rule, st.store.inner.entry .persistent (lib.toLowercase domain) = some rule)
  removeEphemeral : ∀ domain, request = .removeEphemeral domain →
    validateDomain lib domain = true →
    ((st.handle lib order request).2 = .ok ↔
      ∃ rule, st.store.inner.entry .ephemeral (lib.toLowercase domain) = some rule)
  respelled : ∀ domain other, request.domain? = some domain →
    validateDomain lib domain = true → Utf8.eqIgnoreAsciiCase domain other = true →
    st.handle lib order (request.withDomain other) = st.handle lib order request

theorem requests_all_or_nothing (lib : TextLibrary) (hl : lib.Unicode)
    (order : IterationOrder String DnsRule) (requests : List IpcRequest) (request : IpcRequest) :
    AllOrNothing lib order (serve lib order AppState.new requests) request where
  error := fun _ h => handle_error h
  ok := handle_ok
  query := handle_query order _
  remove := by
    rintro domain rfl hv
    rw [handle_ok_iff (IpcRequest.mutation_eq_some_iff.mpr (.remove hv)), announced_remove]
  removeEphemeral := by
    rintro domain rfl hv
    rw [handle_ok_iff (IpcRequest.mutation_eq_some_iff.mpr (.removeEphemeral hv)),
      announced_removeEphemeral]
  respelled := fun _ _ hd hv ho => handle_withDomain hl order _ hd hv ho

theorem removal_all_or_nothing :
    AllOrNothing TextLibrary.unicode default
      (serve TextLibrary.unicode default AppState.new
        [.add "a.test" (.v4 0x7f000001 3000) false]) (.remove "A.Test") :=
  requests_all_or_nothing TextLibrary.unicode TextLibrary.unicode_unicode default
    [.add "a.test" (.v4 0x7f000001 3000) false] (.remove "A.Test")

end AppState

end SideDns
