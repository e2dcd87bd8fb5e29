import Mathlib.Data.List.Find
import SideDns.Store.WellFormed

namespace SideDns

open FiniteMap (IterationOrder)

theorem Layer.WellFormed.find?_exact {l : Layer} (h : l.WellFormed)
    (order : IterationOrder String DnsRule) (domain : String) :
    (order.visit l.exact).find? (fun r => r.matches domain) = l.exact.lookup domain := by
  rw [← FiniteMap.find?_of_values DnsRule.domain h.keyed (order.visit_values _) domain]
  apply List.find?_congr
  intro r hr
  obtain ⟨d,hd⟩ := order.mem_visit.mp hr
  exact DnsRule.matches_exact (h.exact d r hd) domain

theorem Layer.WellFormed.answer_eq {l : Layer} (h : l.WellFormed)
    (order : IterationOrder String DnsRule) (domain : String) :
    l.answer domain = (l.rules order).find? (fun r => r.matches domain) := by
  rw [Layer.rules, List.find?_append, h.find?_exact order]
  rfl

namespace InnerRuleStore

def priorityClasses (ephemeralOrder persistentOrder : IterationOrder String DnsRule)
    (s : InnerRuleStore) : List (List DnsRule) :=
  [ephemeralOrder.visit s.ephemeralExact, s.ephemeralWildcard,
    persistentOrder.visit s.persistentExact, s.persistentWildcard]

theorem flatten_priorityClasses (ephemeralOrder persistentOrder : IterationOrder String DnsRule)
    (s : InnerRuleStore) :
    (s.priorityClasses ephemeralOrder persistentOrder).flatten =
      s.allRules ephemeralOrder persistentOrder := by
  simp [priorityClasses, allRules]

theorem WellFormed.resolve_eq_find? {s : InnerRuleStore} (h : s.WellFormed)
    (ephemeralOrder persistentOrder : IterationOrder String DnsRule) (domain : String) :
    s.resolve domain =
      (s.allRules ephemeralOrder persistentOrder).find? (fun r => r.matches domain) := by
  rw [resolve_eq, allRules_eq, List.find?_append, h.ephemeral.answer_eq ephemeralOrder,
    h.persistent.answer_eq persistentOrder]

theorem resolve_agrees_with_scan (history : List Mutator)
    (ephemeralOrder persistentOrder : IterationOrder String DnsRule) (domain : String) :
    let s := reached history
    let rules := s.allRules ephemeralOrder persistentOrder
    s.resolve domain = rules.find? (fun r => r.matches domain) ∧
    (s.resolve domain = none ↔ ∀ r ∈ rules, r.matches domain = false) ∧
    ∀ r, s.resolve domain = some r → r.matches domain = true ∧
      ∃ higher cls lower,
        s.priorityClasses ephemeralOrder persistentOrder = higher ++ cls :: lower ∧ r ∈ cls ∧
        ∀ c ∈ higher, ∀ r' ∈ c, r'.matches domain = false := by
  intro s rules
  have hscan : s.resolve domain = rules.find? (fun r => r.matches domain) :=
    (reached_wellFormed history).resolve_eq_find? ephemeralOrder persistentOrder domain
  refine ⟨hscan,?_,?_⟩
  · rw [hscan, List.find?_eq_none]
    simp
  · intro r hr
    have hf := hscan.symm.trans hr
    change (s.allRules ephemeralOrder persistentOrder).find? _ = some r at hf
    rw [← flatten_priorityClasses] at hf
    exact Sequence.find?_first_class hf

end InnerRuleStore

end SideDns
