import SideDns.Ipc.Requests
import SideDns.Store.Resolution

namespace SideDns

open FiniteMap (IterationOrder)

namespace InnerRuleStore

def NoEphemeral (s : InnerRuleStore) : Prop := ∀ domain, s.entry .ephemeral domain = none

theorem noEphemeral_iff_values (s : InnerRuleStore) :
    s.NoEphemeral ↔ FiniteMap.values s.toMaps.ephemeral = 0 := by
  rw [Multiset.eq_zero_iff_forall_notMem]
  constructor
  · intro h rule hmem
    obtain ⟨domain,hd⟩ := FiniteMap.mem_values.mp hmem
    have hnone : s.toMaps.ephemeral.lookup domain = none := h domain
    rw [hnone] at hd
    cases hd
  · intro h domain
    cases he : s.entry .ephemeral domain with
    | none => rfl
    | some rule => exact absurd (FiniteMap.mem_values.mpr ⟨domain,he⟩) (h rule)

theorem WellFormed.answer_noEphemeral {s : InnerRuleStore} (h : s.WellFormed)
    (order : IterationOrder String DnsRule) (hn : s.NoEphemeral) (domain : String) :
    s.ephemeral.answer domain = none := by
  have hrules : s.ephemeral.rules order = [] := by
    apply (Multiset.coe_eq_zero _).mp
    rw [h.ephemeral.coe_rules order]
    exact s.noEphemeral_iff_values.mp hn
  rw [h.ephemeral.answer_eq order, hrules, List.find?_nil]

theorem WellFormed.noEphemeral_apply {s : InnerRuleStore} (h : s.WellFormed)
    (hn : s.NoEphemeral) (m : Mutation) :
    (m.apply s).1.NoEphemeral ↔ ∀ rule, m ≠ .addEphemeral rule := by
  constructor
  · rintro hn' rule rfl
    have hentry := h.entry_apply (.addEphemeral rule) .ephemeral rule.domain
    rw [hn' rule.domain] at hentry
    simp [Mutation.slot, Mutation.value] at hentry
  · intro hm domain
    rw [h.entry_apply m]
    split_ifs with hslot
    · cases m with
      | addEphemeral rule => exact absurd rfl (hm rule)
      | add rule => cases hslot
      | remove pattern => cases hslot
      | removeEphemeral pattern => rfl
    · exact hn domain

end InnerRuleStore

theorem IpcRequest.addsEphemeral_eq_false_iff {lib : TextLibrary} {request : IpcRequest} :
    request.addsEphemeral lib = false ↔
      ∀ m, request.mutation lib = some m → ∀ rule, m ≠ .addEphemeral rule := by
  cases request with
  | addEphemeral domain target https =>
    rw [addsEphemeral, mutation]
    cases validateDomain lib domain <;> simp
  | add domain target https =>
    rw [mutation]
    cases validateDomain lib domain <;> simp [addsEphemeral]
  | remove domain =>
    rw [mutation]
    cases validateDomain lib domain <;> simp [addsEphemeral]
  | removeEphemeral domain =>
    rw [mutation]
    cases validateDomain lib domain <;> simp [addsEphemeral]
  | _ => simp [addsEphemeral, mutation]

namespace AppState

variable {lib : TextLibrary} {order : IterationOrder String DnsRule}

def ViewsAgree (lib : TextLibrary) (order : IterationOrder String DnsRule) (st : AppState) : Prop :=
  ∃ rules count, (st.handle lib order .list).2 = .rules rules ∧
    (st.handle lib order .status).2 = .status true count ∧
    (rules : Multiset DnsRule) = FiniteMap.values st.store.inner.toMaps.ephemeral +
      FiniteMap.values st.store.inner.toMaps.persistent ∧
    rules.length = count ∧
    ∀ domain rule, (st.handle lib order (.resolve domain)).2 = .resolved (some rule) →
      rule ∈ rules

theorem coe_persistentRules (order : IterationOrder String DnsRule) (st : AppState) :
    (st.store.inner.persistentRules order : Multiset DnsRule) =
      FiniteMap.values st.store.inner.toMaps.persistent :=
  st.store.wellFormed.persistent.coe_rules order

theorem length_persistentRules {st : AppState} (hn : st.store.inner.NoEphemeral)
    (order : IterationOrder String DnsRule) :
    (st.store.inner.persistentRules order).length = st.store.len := by
  have hlist := st.store.wellFormed.persistent.size_toMap
  have hephemeral := st.store.wellFormed.ephemeral.size_toMap
  rw [← FiniteMap.card_values] at hlist hephemeral
  have hzero := st.store.inner.noEphemeral_iff_values.mp hn
  change FiniteMap.values st.store.inner.ephemeral.toMap = 0 at hzero
  rw [hzero, Multiset.card_zero] at hephemeral
  rw [← Multiset.coe_card, coe_persistentRules, RuleStore.len, InnerRuleStore.len_eq,
    ← hephemeral, ← hlist, Nat.zero_add]
  rfl

theorem resolved_persistent {st : AppState} (hn : st.store.inner.NoEphemeral) {domain : String}
    {rule : DnsRule} (h : (st.handle lib order (.resolve domain)).2 = .resolved (some rule)) :
    rule ∈ st.store.inner.persistentRules order := by
  simp only [handle, accept] at h
  split at h
  · have hresolve : st.store.inner.resolve (lib.toLowercase domain) = some rule :=
      IpcResponse.resolved.inj h
    rw [InnerRuleStore.resolve_eq, st.store.wellFormed.answer_noEphemeral order hn,
      Option.none_or, st.store.wellFormed.persistent.answer_eq order] at hresolve
    exact List.mem_of_find?_eq_some hresolve
  · cases h

theorem viewsAgree_iff (lib : TextLibrary) (order : IterationOrder String DnsRule)
    (st : AppState) : st.ViewsAgree lib order ↔ st.store.inner.NoEphemeral := by
  constructor
  · rintro ⟨rules,count,hlist,-,hrules,-⟩
    obtain rfl := IpcResponse.rules.inj hlist
    rw [InnerRuleStore.noEphemeral_iff_values]
    have hsame := (st.coe_persistentRules order).symm.trans hrules
    exact right_eq_add.mp hsame
  · intro hn
    refine ⟨st.store.inner.persistentRules order,st.store.len,rfl,rfl,?_,
      length_persistentRules hn order,fun _ _ h => resolved_persistent hn h⟩
    rw [coe_persistentRules, st.store.inner.noEphemeral_iff_values.mp hn, zero_add]

theorem noEphemeral_handle {st : AppState} (hn : st.store.inner.NoEphemeral)
    (request : IpcRequest) :
    (st.handle lib order request).1.store.inner.NoEphemeral ↔
      request.addsEphemeral lib = false := by
  rw [IpcRequest.addsEphemeral_eq_false_iff]
  exact inner_handle_iff hn (st.store.wellFormed.noEphemeral_apply hn) order request

theorem noEphemeral_new : AppState.new.store.inner.NoEphemeral := fun _ => rfl

theorem views_agree_iff (lib : TextLibrary) (order : IterationOrder String DnsRule)
    (requests : List IpcRequest) :
    ((serve lib order AppState.new requests).ViewsAgree lib order ↔
      (serve lib order AppState.new requests).store.inner.NoEphemeral) ∧
    ((∀ before, before <+: requests →
      (serve lib order AppState.new before).ViewsAgree lib order) ↔
      ∀ request ∈ requests, request.addsEphemeral lib = false) := by
  refine ⟨viewsAgree_iff lib order _,?_⟩
  simp only [viewsAgree_iff]
  exact serve_invariant_iff lib order (P := fun st => st.store.inner.NoEphemeral) noEphemeral_new
    (fun _ request hn => noEphemeral_handle hn request) requests

theorem list_omits_ephemeral :
    ¬ (serve TextLibrary.unicode default AppState.new
      [.addEphemeral "a.test" (.v4 0x7f000001 3000) false]).ViewsAgree
        TextLibrary.unicode default := by
  intro hviews
  have hempty := (viewsAgree_iff TextLibrary.unicode default _).mp hviews
  have hvalid := (noEphemeral_handle noEphemeral_new _).mp hempty
  revert hvalid
  decide +kernel

end AppState

end SideDns
