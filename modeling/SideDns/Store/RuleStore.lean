import SideDns.Store.Refinement

namespace SideDns

open FiniteMap (IterationOrder)

structure RuleStore where
  inner : InnerRuleStore
  wellFormed : inner.WellFormed
  deriving DecidableEq

namespace RuleStore

def new : RuleStore := ⟨InnerRuleStore.new, InnerRuleStore.wellFormed_new⟩

def resolve (s : RuleStore) (domain : String) : Option DnsRule := s.inner.resolve domain

def add (s : RuleStore) (rule : DnsRule) : RuleStore × DnsRule :=
  (⟨s.inner.add rule, s.wellFormed.add rule⟩, rule)

def addAll (s : RuleStore) (rules : List DnsRule) : RuleStore × Nat :=
  (⟨s.inner.addAll rules, s.wellFormed.addAll rules⟩, rules.length)

def addEphemeral (s : RuleStore) (rule : DnsRule) : RuleStore × DnsRule :=
  (⟨s.inner.addEphemeral rule, s.wellFormed.addEphemeral rule⟩, rule)

def remove (s : RuleStore) (domain : String) : RuleStore × Option DnsRule :=
  (⟨(s.inner.remove domain).1, s.wellFormed.remove domain⟩, (s.inner.remove domain).2)

def removeEphemeral (s : RuleStore) (domain : String) : RuleStore × Option DnsRule :=
  (⟨(s.inner.removeEphemeral domain).1, s.wellFormed.removeEphemeral domain⟩,
    (s.inner.removeEphemeral domain).2)

def snapshotPersistent (order : IterationOrder String DnsRule) (s : RuleStore) : List DnsRule :=
  s.inner.persistentRules order

def snapshotAll (ephemeralOrder persistentOrder : IterationOrder String DnsRule)
    (s : RuleStore) : List DnsRule :=
  s.inner.allRules ephemeralOrder persistentOrder

def len (s : RuleStore) : Nat := s.inner.len

def isEmpty (s : RuleStore) : Bool := s.inner.isEmpty

def reached (history : List Mutator) : RuleStore :=
  ⟨InnerRuleStore.reached history, InnerRuleStore.reached_wellFormed history⟩

theorem ext_inner {s t : RuleStore} (h : s.inner = t.inner) : s = t := by
  cases s
  cases t
  cases h
  rfl

end RuleStore

end SideDns
