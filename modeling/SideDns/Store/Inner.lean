import SideDns.Library.FiniteMap
import SideDns.Library.Sequence
import SideDns.Rule

namespace SideDns

open FiniteMap (HashMap IterationOrder)

structure Layer where
  exact : HashMap String DnsRule
  wildcard : List DnsRule
  deriving DecidableEq

namespace Layer

def insert (l : Layer) (rule : DnsRule) : Layer :=
  if rule.isWildcard then
    { l with wildcard := l.wildcard.filter (fun r => r.domain != rule.domain) ++ [rule] }
  else
    { l with exact := l.exact.insert rule.domain rule }

def remove (l : Layer) (domain : String) : Layer × Option DnsRule :=
  let rule := l.exact.lookup domain
  let exact := l.exact.erase domain
  match l.wildcard.findIdx? (fun x => x.domain == domain) with
  | some pos => (⟨exact, Sequence.swapRemove l.wildcard pos⟩, l.wildcard[pos]?)
  | none => (⟨exact, l.wildcard⟩, rule)

def rules (order : IterationOrder String DnsRule) (l : Layer) : List DnsRule :=
  order.visit l.exact ++ l.wildcard

def len (l : Layer) : Nat := FiniteMap.size l.exact + l.wildcard.length

end Layer

structure InnerRuleStore where
  ephemeralExact : HashMap String DnsRule
  persistentExact : HashMap String DnsRule
  ephemeralWildcard : List DnsRule
  persistentWildcard : List DnsRule
  deriving DecidableEq

namespace InnerRuleStore

def new : InnerRuleStore := ⟨∅, ∅, [], []⟩

def ephemeral (s : InnerRuleStore) : Layer := ⟨s.ephemeralExact, s.ephemeralWildcard⟩

def persistent (s : InnerRuleStore) : Layer := ⟨s.persistentExact, s.persistentWildcard⟩

def withEphemeral (s : InnerRuleStore) (l : Layer) : InnerRuleStore :=
  { s with ephemeralExact := l.exact, ephemeralWildcard := l.wildcard }

def withPersistent (s : InnerRuleStore) (l : Layer) : InnerRuleStore :=
  { s with persistentExact := l.exact, persistentWildcard := l.wildcard }

def findWildcard (list : List DnsRule) (domain : String) : Option DnsRule :=
  list.find? (fun r => r.matches domain)

def resolve (s : InnerRuleStore) (domain : String) : Option DnsRule :=
  match s.ephemeralExact.lookup domain with
  | some r => some r
  | none =>
    match findWildcard s.ephemeralWildcard domain with
    | some r => some r
    | none =>
      match s.persistentExact.lookup domain with
      | some r => some r
      | none =>
        match findWildcard s.persistentWildcard domain with
        | some r => some r
        | none => none

def add (s : InnerRuleStore) (rule : DnsRule) : InnerRuleStore :=
  s.withPersistent (s.persistent.insert rule)

def addAll (s : InnerRuleStore) (rules : List DnsRule) : InnerRuleStore :=
  rules.foldl add s

def addEphemeral (s : InnerRuleStore) (rule : DnsRule) : InnerRuleStore :=
  s.withEphemeral (s.ephemeral.insert rule)

def remove (s : InnerRuleStore) (domain : String) : InnerRuleStore × Option DnsRule :=
  (s.withPersistent (s.persistent.remove domain).1, (s.persistent.remove domain).2)

def removeEphemeral (s : InnerRuleStore) (domain : String) : InnerRuleStore × Option DnsRule :=
  (s.withEphemeral (s.ephemeral.remove domain).1, (s.ephemeral.remove domain).2)

def persistentRules (order : IterationOrder String DnsRule) (s : InnerRuleStore) : List DnsRule :=
  order.visit s.persistentExact ++ s.persistentWildcard

def allRules (ephemeralOrder persistentOrder : IterationOrder String DnsRule)
    (s : InnerRuleStore) : List DnsRule :=
  ephemeralOrder.visit s.ephemeralExact ++ s.ephemeralWildcard ++
    persistentOrder.visit s.persistentExact ++ s.persistentWildcard

def len (s : InnerRuleStore) : Nat :=
  FiniteMap.size s.ephemeralExact + s.ephemeralWildcard.length +
    FiniteMap.size s.persistentExact + s.persistentWildcard.length

def isEmpty (s : InnerRuleStore) : Bool := s.len == 0

@[simp] theorem ephemeral_new : new.ephemeral = ⟨∅, []⟩ := rfl

@[simp] theorem persistent_new : new.persistent = ⟨∅, []⟩ := rfl

@[simp] theorem ephemeral_withEphemeral (s : InnerRuleStore) (l : Layer) :
    (s.withEphemeral l).ephemeral = l := rfl

@[simp] theorem persistent_withEphemeral (s : InnerRuleStore) (l : Layer) :
    (s.withEphemeral l).persistent = s.persistent := rfl

@[simp] theorem ephemeral_withPersistent (s : InnerRuleStore) (l : Layer) :
    (s.withPersistent l).ephemeral = s.ephemeral := rfl

@[simp] theorem persistent_withPersistent (s : InnerRuleStore) (l : Layer) :
    (s.withPersistent l).persistent = l := rfl

theorem ext_layers {s t : InnerRuleStore} (he : s.ephemeral = t.ephemeral)
    (hp : s.persistent = t.persistent) : s = t := by
  cases s
  cases t
  simp only [ephemeral, persistent, Layer.mk.injEq] at he hp
  obtain ⟨rfl,rfl⟩ := he
  obtain ⟨rfl,rfl⟩ := hp
  rfl

theorem persistentRules_eq (order : IterationOrder String DnsRule) (s : InnerRuleStore) :
    s.persistentRules order = s.persistent.rules order := rfl

theorem allRules_eq (ephemeralOrder persistentOrder : IterationOrder String DnsRule)
    (s : InnerRuleStore) :
    s.allRules ephemeralOrder persistentOrder =
      s.ephemeral.rules ephemeralOrder ++ s.persistent.rules persistentOrder := by
  simp [allRules, Layer.rules, ephemeral, persistent]

theorem len_eq (s : InnerRuleStore) : s.len = s.ephemeral.len + s.persistent.len := by
  simp [len, Layer.len, ephemeral, persistent, Nat.add_assoc]

end InnerRuleStore

def Layer.answer (l : Layer) (domain : String) : Option DnsRule :=
  (l.exact.lookup domain).or (InnerRuleStore.findWildcard l.wildcard domain)

theorem InnerRuleStore.resolve_eq (s : InnerRuleStore) (domain : String) :
    s.resolve domain = (s.ephemeral.answer domain).or (s.persistent.answer domain) := by
  simp only [resolve, Layer.answer, ephemeral, persistent]
  cases s.ephemeralExact.lookup domain with
  | some r => rfl
  | none =>
    cases findWildcard s.ephemeralWildcard domain with
    | some r => rfl
    | none =>
      cases s.persistentExact.lookup domain with
      | some r => rfl
      | none => cases findWildcard s.persistentWildcard domain <;> rfl

inductive Mutation where
  | add (rule : DnsRule)
  | addEphemeral (rule : DnsRule)
  | remove (domain : String)
  | removeEphemeral (domain : String)
  deriving DecidableEq, Repr

namespace Mutation

def pattern : Mutation → String
  | add rule => rule.domain
  | addEphemeral rule => rule.domain
  | remove domain => domain
  | removeEphemeral domain => domain

def apply : Mutation → InnerRuleStore → InnerRuleStore × Option DnsRule
  | add rule, s => (s.add rule, none)
  | addEphemeral rule, s => (s.addEphemeral rule, none)
  | remove domain, s => s.remove domain
  | removeEphemeral domain, s => s.removeEphemeral domain

end Mutation

inductive Mutator where
  | single (mutation : Mutation)
  | addAll (rules : List DnsRule)
  deriving DecidableEq, Repr

namespace Mutator

def apply : Mutator → InnerRuleStore → InnerRuleStore × Option DnsRule
  | single mutation, s => mutation.apply s
  | addAll rules, s => (s.addAll rules, none)

def run : List Mutator → InnerRuleStore → InnerRuleStore × List (Option DnsRule)
  | [], s => (s, [])
  | m :: ms, s => ((run ms (m.apply s).1).1, (m.apply s).2 :: (run ms (m.apply s).1).2)

end Mutator

def InnerRuleStore.reached (history : List Mutator) : InnerRuleStore :=
  (Mutator.run history InnerRuleStore.new).1

end SideDns
