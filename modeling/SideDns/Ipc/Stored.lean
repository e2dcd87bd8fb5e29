import SideDns.Dns.Coverage
import SideDns.Ipc.Removal
import SideDns.Ipc.Wire

namespace SideDns

open FiniteMap (IterationOrder)

variable {P : DnsRule → Prop}

def Mutation.Writes (P : DnsRule → Prop) (m : Mutation) : Prop := ∀ rule ∈ m.value, P rule

theorem Mutation.writes_of_value_none {m : Mutation} (h : m.value = none) : m.Writes P := by
  intro rule hr
  rw [h] at hr
  cases hr

def IpcRequest.Writes (lib : TextLibrary) (P : DnsRule → Prop) (request : IpcRequest) : Prop :=
  ∀ m ∈ request.mutation lib, m.Writes P

theorem IpcRequest.Portable.writes {lib : TextLibrary} {request : IpcRequest}
    (h : request.Portable) : request.Writes lib fun rule => rule.target.flowinfo = 0 := by
  intro m hm rule hr
  cases mutation_eq_some_iff.mp hm with
  | @add domain target https hv =>
    obtain rfl := Option.some.inj hr
    exact h target rfl
  | @addEphemeral domain target https hv =>
    obtain rfl := Option.some.inj hr
    exact h target rfl
  | remove hv => cases hr
  | removeEphemeral hv => cases hr

namespace InnerRuleStore

def Holds (P : DnsRule → Prop) (s : InnerRuleStore) : Prop :=
  ∀ kind domain rule, s.entry kind domain = some rule → P rule

theorem holds_new : new.Holds P := by
  intro kind domain rule h
  cases kind <;> cases h

theorem WellFormed.holds_apply {s : InnerRuleStore} (h : s.WellFormed) (hs : s.Holds P)
    {m : Mutation} (hm : m.Writes P) : (m.apply s).1.Holds P := by
  intro kind domain rule he
  rw [h.entry_apply] at he
  split_ifs at he with hslot
  · exact hm rule he
  · exact hs kind domain rule he

theorem WellFormed.holds_addAll {s : InnerRuleStore} (h : s.WellFormed) (hs : s.Holds P)
    {rules : List DnsRule} (hr : ∀ rule ∈ rules, P rule) : (s.addAll rules).Holds P := by
  induction rules generalizing s with
  | nil => exact hs
  | cons rule rules ih =>
    obtain ⟨hrule,hrules⟩ := List.forall_mem_cons.mp hr
    refine ih (h.add rule) (h.holds_apply hs (m := .add rule) ?_) hrules
    intro other ho
    obtain rfl := Option.some.inj ho
    exact hrule

theorem WellFormed.holds_announced {s : InnerRuleStore} (h : s.WellFormed) (hs : s.Holds P)
    {m : Mutation} (hm : m.Writes P) {rule : DnsRule} (ha : m.announced s = some rule) :
    P rule := by
  cases m with
  | add r => exact hm rule ha
  | addEphemeral r => exact hm rule ha
  | remove domain =>
    exact hs .persistent domain rule ((h.persistent.remove_returns domain).symm.trans ha)
  | removeEphemeral domain =>
    exact hs .ephemeral domain rule ((h.ephemeral.remove_returns domain).symm.trans ha)

theorem WellFormed.mem_allRules {s : InnerRuleStore} (h : s.WellFormed)
    (ephemeralOrder persistentOrder : IterationOrder String DnsRule) (rule : DnsRule) :
    rule ∈ s.allRules ephemeralOrder persistentOrder ↔
      ∃ kind, s.entry kind rule.domain = some rule := by
  rw [allRules_eq, List.mem_append, ← Multiset.mem_coe, ← Multiset.mem_coe,
    h.ephemeral.coe_rules, h.persistent.coe_rules, FiniteMap.mem_values, FiniteMap.mem_values]
  constructor
  · rintro (⟨domain,hd⟩ | ⟨domain,hd⟩)
    · have hkey : rule.domain = domain := h.ephemeral.keyed_toMap _ _ hd
      exact ⟨.ephemeral,by rw [hkey]; exact hd⟩
    · have hkey : rule.domain = domain := h.persistent.keyed_toMap _ _ hd
      exact ⟨.persistent,by rw [hkey]; exact hd⟩
  · rintro ⟨kind,he⟩
    cases kind with
    | ephemeral => exact .inl ⟨rule.domain,he⟩
    | persistent => exact .inr ⟨rule.domain,he⟩

theorem WellFormed.resolve_stored {s : InnerRuleStore} (h : s.WellFormed) {domain : String}
    {rule : DnsRule} (hr : s.resolve domain = some rule) :
    (∃ kind, s.entry kind rule.domain = some rule) ∧ rule.matches domain = true := by
  rw [h.resolve_eq_find? default default] at hr
  exact ⟨(h.mem_allRules default default rule).mp (List.mem_of_find?_eq_some hr),
    List.find?_some (p := fun r : DnsRule => r.matches domain) hr⟩

theorem WellFormed.holds_resolve {s : InnerRuleStore} (h : s.WellFormed) (hs : s.Holds P)
    {domain : String} {rule : DnsRule} (hr : s.resolve domain = some rule) : P rule := by
  obtain ⟨⟨kind,he⟩,-⟩ := h.resolve_stored hr
  exact hs kind rule.domain rule he

theorem WellFormed.holds_persistentRules {s : InnerRuleStore} (h : s.WellFormed)
    (hs : s.Holds P) (order : IterationOrder String DnsRule) :
    ∀ rule ∈ s.persistentRules order, P rule := fun rule hr =>
  hs .persistent rule.domain rule ((h.mem_persistentRules order rule).mp hr)

theorem WellFormed.len_toMaps {s : InnerRuleStore} (h : s.WellFormed) :
    s.len = FiniteMap.size s.toMaps.ephemeral + FiniteMap.size s.toMaps.persistent := by
  rw [len_eq, ← h.ephemeral.size_toMap, ← h.persistent.size_toMap]
  rfl

theorem WellFormed.len_apply_le {s : InnerRuleStore} (h : s.WellFormed) (m : Mutation) :
    (m.apply s).1.len ≤ s.len + 1 := by
  have hmaps : (m.apply s).1.toMaps = (RuleMaps.mutate m s.toMaps).1 :=
    congrArg Prod.fst (m.apply_refines h)
  rw [(m.apply_wellFormed h).len_toMaps, h.len_toMaps, hmaps]
  cases m with
  | add rule =>
    have hsize := FiniteMap.size_insert_le s.toMaps.persistent rule.domain rule
    simp only [RuleMaps.mutate]
    omega
  | addEphemeral rule =>
    have hsize := FiniteMap.size_insert_le s.toMaps.ephemeral rule.domain rule
    simp only [RuleMaps.mutate]
    omega
  | remove domain =>
    have hsize := FiniteMap.size_erase_le s.toMaps.persistent domain
    simp only [RuleMaps.mutate]
    omega
  | removeEphemeral domain =>
    have hsize := FiniteMap.size_erase_le s.toMaps.ephemeral domain
    simp only [RuleMaps.mutate]
    omega

end InnerRuleStore

def Stage.rules : Stage → List DnsRule
  | announcing event => event.rule?.toList
  | replied response => response.carried
  | _ => []

namespace AppState

variable {lib : TextLibrary}

theorem holds_stored {st : AppState} (h : st.store.inner.Holds P)
    (order : IterationOrder String DnsRule) {request : IpcRequest}
    (hw : request.Writes lib P) : (st.accept lib order request).1.store.inner.Holds P := by
  have hacc := st.accept_cases lib order request
  generalize st.accept lib order request = accepted at hacc
  cases hacc with
  | announcing m rule hm ha => exact st.store.wellFormed.holds_apply h (hw m hm)
  | stopping hs => exact h
  | replied response hn => exact h

theorem holds_staged {st : AppState} (h : st.store.inner.Holds P)
    (order : IterationOrder String DnsRule) {request : IpcRequest}
    (hw : request.Writes lib P) : ∀ rule ∈ (st.accept lib order request).2.rules, P rule := by
  have hwell := st.store.wellFormed
  cases request with
  | add domain target https | addEphemeral domain target https =>
    simp only [accept]
    split_ifs with hv
    · intro rule hr
      obtain rfl := List.mem_singleton.mp hr
      exact hw _ (if_pos hv) _ rfl
    · exact fun rule hr => absurd hr List.not_mem_nil
  | remove domain =>
    simp only [accept]
    split_ifs with hv
    · split
      · next rule hrule =>
        intro other ho
        obtain rfl := List.mem_singleton.mp ho
        exact hwell.holds_announced h (m := .remove (lib.toLowercase domain))
          (Mutation.writes_of_value_none rfl) hrule
      · exact fun rule hr => absurd hr List.not_mem_nil
    · exact fun rule hr => absurd hr List.not_mem_nil
  | removeEphemeral domain =>
    simp only [accept]
    split_ifs with hv
    · split
      · next rule hrule =>
        intro other ho
        obtain rfl := List.mem_singleton.mp ho
        exact hwell.holds_announced h (m := .removeEphemeral (lib.toLowercase domain))
          (Mutation.writes_of_value_none rfl) hrule
      · exact fun rule hr => absurd hr List.not_mem_nil
    · exact fun rule hr => absurd hr List.not_mem_nil
  | list => exact hwell.holds_persistentRules h order
  | resolve domain =>
    simp only [accept]
    split_ifs with hv
    · exact fun rule hr => hwell.holds_resolve h (Option.mem_toList.mp hr)
    · exact fun rule hr => absurd hr List.not_mem_nil
  | status | stop | subscribe => exact fun rule hr => absurd hr List.not_mem_nil

theorem holds_handle {st : AppState} (h : st.store.inner.Holds P)
    (order : IterationOrder String DnsRule) {request : IpcRequest}
    (hw : request.Writes lib P) : (st.handle lib order request).1.store.inner.Holds P := by
  rw [store_handle]
  cases hm : request.mutation lib with
  | none => exact h
  | some m => exact st.store.wellFormed.holds_apply h (hw m hm)

theorem holds_carried {st : AppState} (h : st.store.inner.Holds P)
    (order : IterationOrder String DnsRule) {request : IpcRequest}
    (hw : request.Writes lib P) : ∀ rule ∈ (st.handle lib order request).2.carried, P rule := by
  have hstaged := holds_staged h order hw
  rw [handle]
  cases hstage : (st.accept lib order request).2 with
  | replied response =>
    rw [hstage] at hstaged
    exact hstaged
  | _ => exact fun rule hr => absurd hr List.not_mem_nil

theorem len_handle_le (lib : TextLibrary) (order : IterationOrder String DnsRule) (st : AppState)
    (request : IpcRequest) :
    (st.handle lib order request).1.store.len ≤ st.store.len + 1 := by
  rw [store_handle]
  cases request.mutation lib with
  | none => exact Nat.le_succ _
  | some m => exact st.store.wellFormed.len_apply_le m

theorem status_handle {order : IterationOrder String DnsRule} {st : AppState}
    {request : IpcRequest} {running : Bool} {ruleCount : Nat}
    (h : (st.handle lib order request).2 = .status running ruleCount) :
    ruleCount = st.store.len := by
  cases request with
  | status =>
    obtain ⟨-,rfl⟩ := IpcResponse.status.inj h
    rfl
  | list | stop | subscribe => cases h
  | add domain target https | addEphemeral domain target https | resolve domain =>
    simp only [handle, accept] at h
    split_ifs at h <;> cases h
  | remove domain | removeEphemeral domain =>
    simp only [handle, accept] at h
    split_ifs at h
    · split at h <;> cases h
    · cases h

theorem portable_handle {st : AppState}
    (h : st.store.inner.Holds fun rule => rule.target.flowinfo = 0) (hlen : st.store.len < 2 ^ 64)
    (order : IterationOrder String DnsRule) {request : IpcRequest} (hp : request.Portable) :
    (st.handle lib order request).2.Portable := by
  refine ⟨holds_carried h order hp.writes,fun running ruleCount heq => ?_⟩
  rw [status_handle heq]
  exact hlen

end AppState

end SideDns
