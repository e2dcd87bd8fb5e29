import SideDns.Ipc.Requests

namespace SideDns

open FiniteMap (IterationOrder)

def Removable (lib : TextLibrary) (domain : String) : Prop :=
  validateDomain lib domain = true ∧ lib.toLowercase domain = domain

theorem IpcRequest.mutation_removable {lib : TextLibrary} (hl : lib.Unicode)
    {request : IpcRequest} {m : Mutation} (hm : request.mutation lib = some m) :
    Removable lib m.slot.2 := by
  have hkey {domain : String} (hv : validateDomain lib domain = true) :
      Removable lib (lib.toLowercase domain) :=
    ⟨validateDomain_toLowercase hl hv,toLowercase_idem hl hv⟩
  cases mutation_eq_some_iff.mp hm with
  | add hv => exact hkey hv
  | addEphemeral hv => exact hkey hv
  | remove hv => exact hkey hv
  | removeEphemeral hv => exact hkey hv

namespace InnerRuleStore

def PersistentRemovable (lib : TextLibrary) (s : InnerRuleStore) : Prop :=
  ∀ domain rule, s.entry .persistent domain = some rule → Removable lib domain

theorem WellFormed.persistentRemovable_apply {lib : TextLibrary} {s : InnerRuleStore}
    (h : s.WellFormed) {m : Mutation} (hm : Removable lib m.slot.2) :
    (m.apply s).1.PersistentRemovable lib ↔ s.PersistentRemovable lib := by
  constructor
  · intro hr domain rule he
    by_cases hslot : (.persistent, domain) = m.slot
    · rw [← hslot] at hm
      exact hm
    · refine hr domain rule ?_
      rw [h.entry_apply, if_neg hslot, he]
  · intro hr domain rule he
    rw [h.entry_apply] at he
    split_ifs at he with hslot
    · rw [← hslot] at hm
      exact hm
    · exact hr domain rule he

theorem WellFormed.mem_persistentRules {s : InnerRuleStore} (h : s.WellFormed)
    (order : IterationOrder String DnsRule) (rule : DnsRule) :
    rule ∈ s.persistentRules order ↔ s.entry .persistent rule.domain = some rule := by
  rw [persistentRules_eq, ← Multiset.mem_coe, h.persistent.coe_rules order, FiniteMap.mem_values]
  constructor
  · rintro ⟨domain,hd⟩
    rwa [h.persistent.keyed_toMap _ _ hd]
  · exact fun he => ⟨rule.domain,he⟩

theorem WellFormed.persistentRemovable_add {lib : TextLibrary} {s : InnerRuleStore}
    (h : s.WellFormed) (rule : DnsRule) :
    (s.add rule).PersistentRemovable lib ↔
      s.PersistentRemovable lib ∧ Removable lib rule.domain := by
  have hentry (domain : String) : (s.add rule).entry .persistent domain =
      if (.persistent, domain) = (Mutation.add rule).slot then some rule
      else s.entry .persistent domain :=
    h.entry_apply (.add rule) .persistent domain
  constructor
  · intro hr
    have hrule : Removable lib rule.domain := by
      refine hr rule.domain rule ?_
      rw [hentry]
      exact if_pos rfl
    refine ⟨fun domain old he => ?_,hrule⟩
    by_cases hslot : (.persistent, domain) = (Mutation.add rule).slot
    · obtain rfl : domain = rule.domain := congrArg Prod.snd hslot
      exact hrule
    · refine hr domain old ?_
      rw [hentry, if_neg hslot, he]
  · rintro ⟨hr,hrule⟩ domain old he
    rw [hentry] at he
    split_ifs at he with hslot
    · obtain rfl : domain = rule.domain := congrArg Prod.snd hslot
      exact hrule
    · exact hr domain old he

theorem WellFormed.persistentRemovable_addAll {lib : TextLibrary} {s : InnerRuleStore}
    (h : s.WellFormed) (rules : List DnsRule) :
    (s.addAll rules).PersistentRemovable lib ↔
      s.PersistentRemovable lib ∧ ∀ rule ∈ rules, Removable lib rule.domain := by
  induction rules generalizing s with
  | nil =>
    refine (and_iff_left ?_).symm
    simp
  | cons rule rules ih =>
    change ((s.add rule).addAll rules).PersistentRemovable lib ↔ _
    rw [ih (h.add rule), h.persistentRemovable_add, List.forall_mem_cons, and_assoc]

end InnerRuleStore

namespace AppState

variable {lib : TextLibrary} {order : IterationOrder String DnsRule}

def ListedRemovable (lib : TextLibrary) (order : IterationOrder String DnsRule)
    (st : AppState) : Prop :=
  ∀ rules, (st.handle lib order .list).2 = .rules rules → ∀ rule ∈ rules,
    let removed := st.handle lib order (.remove rule.domain)
    removed.2 = .ok ∧ ∀ rest, (removed.1.handle lib order .list).2 = .rules rest → rule ∉ rest

theorem handle_list (lib : TextLibrary) (order : IterationOrder String DnsRule) (st : AppState) :
    (st.handle lib order .list).2 = .rules (st.store.inner.persistentRules order) := rfl

theorem entry_handle_remove {st : AppState} {domain : String}
    (hv : validateDomain lib domain = true) (kind : Lifetime) (other : String) :
    (st.handle lib order (.remove domain)).1.store.inner.entry kind other =
      if (kind, other) = (.persistent, lib.toLowercase domain) then none
      else st.store.inner.entry kind other := by
  rw [store_handle, IpcRequest.mutation_eq_some_iff.mpr (.remove hv)]
  exact st.store.wellFormed.entry_apply _ kind other

theorem handle_remove_ok {st : AppState} {domain : String}
    (h : (st.handle lib order (.remove domain)).2 = .ok) : validateDomain lib domain = true := by
  cases hv : validateDomain lib domain with
  | true => rfl
  | false =>
    simp only [handle, accept, hv, finish] at h
    cases h

theorem listedRemovable_iff (lib : TextLibrary) (order : IterationOrder String DnsRule)
    (st : AppState) :
    st.ListedRemovable lib order ↔ st.store.inner.PersistentRemovable lib := by
  have hmem (s : AppState) := s.store.wellFormed.mem_persistentRules order
  constructor
  · intro h domain rule he
    obtain rfl := st.store.wellFormed.persistent.keyed_toMap _ _ he
    obtain ⟨hok,hgone⟩ := h _ (handle_list lib order st) rule ((hmem st rule).mpr he)
    have hv := handle_remove_ok hok
    refine ⟨hv,?_⟩
    by_contra hne
    refine hgone _ (handle_list lib order _) ((hmem _ rule).mpr ?_)
    rw [entry_handle_remove hv, if_neg (by simpa using Ne.symm hne), he]
  · intro h rules hrules rule hr
    obtain rfl := IpcResponse.rules.inj hrules
    have he := (hmem st rule).mp hr
    obtain ⟨hv,hlower⟩ := h _ _ he
    constructor
    · rw [handle_ok_iff (IpcRequest.mutation_eq_some_iff.mpr (.remove hv)), announced_remove,
        hlower]
      exact ⟨rule,he⟩
    · intro rest hrest hstill
      obtain rfl := IpcResponse.rules.inj hrest
      have hstill' := (hmem _ rule).mp hstill
      rw [entry_handle_remove hv, hlower, if_pos rfl] at hstill'
      cases hstill'

theorem persistentRemovable_handle (hl : lib.Unicode) (st : AppState) (request : IpcRequest) :
    (st.handle lib order request).1.store.inner.PersistentRemovable lib ↔
      st.store.inner.PersistentRemovable lib := by
  rw [store_handle]
  cases hm : request.mutation lib with
  | none => rfl
  | some m =>
    exact st.store.wellFormed.persistentRemovable_apply (IpcRequest.mutation_removable hl hm)

theorem persistentRemovable_serve (hl : lib.Unicode) (st : AppState)
    (requests : List IpcRequest) :
    (st.serve lib order requests).store.inner.PersistentRemovable lib ↔
      st.store.inner.PersistentRemovable lib := by
  induction requests generalizing st with
  | nil => rfl
  | cons request requests ih =>
    exact (ih _).trans (persistentRemovable_handle hl st request)

theorem listed_rules_removable_iff (lib : TextLibrary) (hl : lib.Unicode)
    (order : IterationOrder String DnsRule) (loaded : DnsConfig) (requests : List IpcRequest) :
    let started := (AppState.new.loadRules (some loaded)).1
    (serve lib order started requests).ListedRemovable lib order ↔
      ∀ rule ∈ loaded.rules, Removable lib rule.domain := by
  intro started
  rw [listedRemovable_iff, persistentRemovable_serve hl]
  refine (InnerRuleStore.wellFormed_new.persistentRemovable_addAll loaded.rules).trans ?_
  refine and_iff_right ?_
  intro domain rule h
  cases h

theorem lowercase_rules_removable :
    let started := (AppState.new.loadRules (some ⟨[⟨"api.local", .v4 0x7f000001 3000, false⟩]⟩)).1
    (serve TextLibrary.unicode default started [.remove "other.local"]).ListedRemovable
        TextLibrary.unicode default ↔
      ∀ rule ∈ [(⟨"api.local", .v4 0x7f000001 3000, false⟩ : DnsRule)],
        Removable TextLibrary.unicode rule.domain :=
  listed_rules_removable_iff TextLibrary.unicode TextLibrary.unicode_unicode default
    ⟨[⟨"api.local", .v4 0x7f000001 3000, false⟩]⟩ [.remove "other.local"]

theorem uppercase_rule_kept :
    let started := (AppState.new.loadRules (some ⟨[⟨"API.local", .v4 0x7f000001 3000, false⟩]⟩)).1
    ¬ started.ListedRemovable TextLibrary.unicode default ∧
      (started.handle TextLibrary.unicode default (.remove "API.local")).2 =
        .error "No rule found for 'api.local'" := by
  refine ⟨fun h => ?_,by decide +kernel⟩
  have hlower := (listedRemovable_iff TextLibrary.unicode default _).mp h "API.local"
    ⟨"API.local", .v4 0x7f000001 3000, false⟩ (by decide)
  revert hlower
  unfold Removable
  decide +kernel

end AppState

end SideDns
