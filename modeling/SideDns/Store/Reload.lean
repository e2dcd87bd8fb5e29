import SideDns.State

namespace SideDns

open FiniteMap (IterationOrder)

namespace Layer

theorem foldl_insert_exact {rules : List DnsRule} (h : ∀ r ∈ rules, r.isWildcard = false)
    (l : Layer) :
    rules.foldl insert l = ⟨FiniteMap.insertAll DnsRule.domain l.exact rules, l.wildcard⟩ := by
  induction rules generalizing l with
  | nil => rfl
  | cons rule rules ih =>
    rw [List.foldl_cons, insert_exact (h rule List.mem_cons_self),
      ih (fun r hr => h r (List.mem_cons_of_mem _ hr))]
    rfl

theorem foldl_insert_wildcard {rules : List DnsRule} (h : ∀ r ∈ rules, r.isWildcard = true)
    (l : Layer) (hn : ((l.wildcard ++ rules).map DnsRule.domain).Nodup) :
    rules.foldl insert l = ⟨l.exact, l.wildcard ++ rules⟩ := by
  induction rules generalizing l with
  | nil => simp
  | cons rule rules ih =>
    have hfilter : l.wildcard.filter (fun r => r.domain != rule.domain) = l.wildcard := by
      rw [List.filter_eq_self]
      intro r hr
      rw [List.map_append, List.nodup_append] at hn
      have hne := hn.2.2 r.domain (List.mem_map_of_mem hr) rule.domain (by simp)
      simpa using hne
    have hn' : ((l.wildcard ++ [rule] ++ rules).map DnsRule.domain).Nodup := by
      simpa using hn
    rw [List.foldl_cons, insert_wildcard (h rule List.mem_cons_self), hfilter,
      ih (fun r hr => h r (List.mem_cons_of_mem _ hr)) ⟨l.exact,l.wildcard ++ [rule]⟩ hn']
    simp

theorem WellFormed.foldl_insert_rules {l : Layer} (h : l.WellFormed)
    (order : IterationOrder String DnsRule) :
    (l.rules order).foldl Layer.insert ⟨∅, []⟩ = l := by
  have hexact : ∀ r ∈ order.visit l.exact, r.isWildcard = false := by
    intro r hr
    obtain ⟨d,hd⟩ := order.mem_visit.mp hr
    exact h.exact d r hd
  rw [rules, List.foldl_append, foldl_insert_exact hexact,
    FiniteMap.insertAll_of_values _ h.keyed (order.visit_values _)]
  exact foldl_insert_wildcard h.wildcard ⟨l.exact,[]⟩ h.nodup

end Layer

namespace InnerRuleStore

theorem addAll_layers (s : InnerRuleStore) (rules : List DnsRule) :
    (s.addAll rules).ephemeral = s.ephemeral ∧
      (s.addAll rules).persistent = rules.foldl Layer.insert s.persistent := by
  induction rules generalizing s with
  | nil => exact ⟨rfl,rfl⟩
  | cons rule rules ih => exact ih (s.add rule)

theorem WellFormed.addAll_persistentRules {s : InnerRuleStore} (h : s.WellFormed)
    (order : IterationOrder String DnsRule) :
    new.addAll (s.persistentRules order) = s.withEphemeral ⟨∅, []⟩ := by
  obtain ⟨he,hp⟩ := addAll_layers new (s.persistentRules order)
  apply ext_layers
  · exact he
  · rw [hp, persistentRules_eq, persistent_new, h.persistent.foldl_insert_rules order]
    rfl

end InnerRuleStore

namespace AppState

def reload (order : IterationOrder String DnsRule) (st : AppState) : AppState :=
  (new.loadRules (some (st.save order))).1

theorem reload_inner (order : IterationOrder String DnsRule) (st : AppState) :
    (st.reload order).store.inner = st.store.inner.withEphemeral ⟨∅, []⟩ :=
  st.store.wellFormed.addAll_persistentRules order

theorem reload_preserves_routing (history : List Mutator)
    (order order' : IterationOrder String DnsRule) (domain : String) :
    let st := { new with store := RuleStore.reached history }
    (st.reload order).store.inner =
      InnerRuleStore.new.addAll ((InnerRuleStore.reached history).persistentRules order) ∧
    (st.reload order).store.resolve domain =
      ((InnerRuleStore.reached history).withEphemeral ⟨∅, []⟩).resolve domain ∧
    ((st.reload order).reload order').store.resolve domain =
      (st.reload order).store.resolve domain := by
  refine ⟨rfl,?_,?_⟩
  · rw [RuleStore.resolve, reload_inner]
    rfl
  · rw [RuleStore.resolve, RuleStore.resolve, reload_inner, reload_inner]
    rfl

end AppState

end SideDns
