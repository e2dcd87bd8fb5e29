import Mathlib.Data.List.Find
import SideDns.Store.WellFormed

namespace SideDns

namespace Layer

def overtakes (l : Layer) (pattern domain : String) : Bool :=
  match l.wildcard.findIdx? (fun x => x.domain == pattern) with
  | some pos => Sequence.overtakes l.wildcard pos (fun r => r.matches domain)
  | none => false

def displaces (l : Layer) (pattern domain : String) : Bool :=
  (l.exact.lookup domain).isNone && l.overtakes pattern domain

theorem WellFormed.lookup_erase_exact {l : Layer} (h : l.WellFormed) {pattern domain : String}
    (hm : patternMatches pattern domain = false) :
    (l.exact.erase pattern).lookup domain = l.exact.lookup domain := by
  rcases eq_or_ne domain pattern with rfl | hd
  · rw [Finmap.lookup_erase]
    cases hl : l.exact.lookup domain with
    | none => rfl
    | some r =>
      have hw : patternIsWildcard domain = false := by
        rw [← h.keyed domain r hl]
        exact h.exact domain r hl
      rw [patternMatches_exact hw] at hm
      simp at hm
  · exact Finmap.lookup_erase_ne hd

theorem answer_insert {l : Layer} {rule : DnsRule} {domain : String}
    (hm : rule.matches domain = false) : (l.insert rule).answer domain = l.answer domain := by
  cases hw : rule.isWildcard with
  | true =>
    have hfind : (l.wildcard.filter (fun r => r.domain != rule.domain) ++ [rule]).find?
        (fun r => r.matches domain) = l.wildcard.find? (fun r => r.matches domain) := by
      rw [List.find?_append, List.find?_filter, List.find?_cons_of_neg (by simp [hm]),
        List.find?_nil, Option.or_none]
      apply List.find?_congr
      intro r _
      rcases eq_or_ne r.domain rule.domain with he | he
      · have hr : r.matches domain = false := by
          rw [DnsRule.matches, he]
          exact hm
        simp [he, hr]
      · simp [he]
    rw [insert_wildcard hw]
    simp only [answer, InnerRuleStore.findWildcard, hfind]
  | false =>
    have hd : domain ≠ rule.domain := by
      rw [DnsRule.matches_exact hw] at hm
      exact fun heq => by simp [heq] at hm
    rw [insert_exact hw]
    simp only [answer, Finmap.lookup_insert_of_ne _ hd]

theorem WellFormed.answer_remove {l : Layer} (h : l.WellFormed) {pattern domain : String}
    (hm : patternMatches pattern domain = false) (hd : l.displaces pattern domain = false) :
    (l.remove pattern).1.answer domain = l.answer domain := by
  have he := h.lookup_erase_exact hm
  rcases l.remove_cases pattern with ⟨front,x,back,hl,hx,hf,hr⟩ | ⟨-,hr⟩
  · rw [hr]
    simp only [answer, he]
    cases hlookup : l.exact.lookup domain with
    | some r => rfl
    | none =>
      have hxm : x.matches domain = false := by
        rw [DnsRule.matches, hx]
        exact hm
      have ho : Sequence.overtakes l.wildcard front.length (fun r => r.matches domain) = false := by
        simpa [displaces, overtakes, hlookup, hf] using hd
      rw [hl] at ho
      simp only [Option.none_or, InnerRuleStore.findWildcard, hl]
      exact Sequence.find?_swapRemove front back x _ hxm ho
  · rw [hr]
    simp only [answer, he]

theorem WellFormed.answer_remove_displaced {l : Layer} (h : l.WellFormed)
    {pattern domain : String} (hm : patternMatches pattern domain = false)
    (hd : l.displaces pattern domain = true) :
    ∃ y z, y ≠ z ∧ l.answer domain = some y ∧
      (l.remove pattern).1.answer domain = some z := by
  rw [displaces, Bool.and_eq_true, Option.isNone_iff_eq_none] at hd
  obtain ⟨hlookup,ho⟩ := hd
  have he := h.lookup_erase_exact hm
  rcases l.remove_cases pattern with ⟨front,x,back,hl,hx,hf,hr⟩ | ⟨hn,hr⟩
  · have hxm : x.matches domain = false := by
      rw [DnsRule.matches, hx]
      exact hm
    have hnodup : (front ++ x :: back).Nodup := by
      rw [← hl]
      exact h.nodup.of_map
    simp only [overtakes, hf] at ho
    rw [hl] at ho
    obtain ⟨y,z,hne,hy,hz⟩ :=
      Sequence.find?_swapRemove_overtakes front back x _ hxm hnodup ho
    refine ⟨y,z,hne,?_,?_⟩
    · simpa only [answer, hlookup, Option.none_or, InnerRuleStore.findWildcard, hl] using hy
    · rw [hr]
      simpa only [answer, he, hlookup, Option.none_or, InnerRuleStore.findWildcard, hl] using hz
  · have hnone : l.wildcard.findIdx? (fun x => x.domain == pattern) = none := by
      rw [List.findIdx?_eq_none_iff]
      intro x hx
      simpa using hn x hx
    simp [overtakes, hnone] at ho

end Layer

namespace InnerRuleStore

def displaces (s : InnerRuleStore) (m : Mutation) (domain : String) : Bool :=
  match m with
  | .add _ => false
  | .addEphemeral _ => false
  | .remove pattern => (s.ephemeral.answer domain).isNone && s.persistent.displaces pattern domain
  | .removeEphemeral pattern => s.ephemeral.displaces pattern domain

theorem WellFormed.resolve_mutation {s : InnerRuleStore} (h : s.WellFormed) {m : Mutation}
    {domain : String} (hm : patternMatches m.pattern domain = false)
    (hd : s.displaces m domain = false) :
    (m.apply s).1.resolve domain = s.resolve domain := by
  rw [resolve_eq, resolve_eq]
  cases m with
  | add rule =>
    change (s.ephemeral.answer domain).or ((s.persistent.insert rule).answer domain) = _
    rw [Layer.answer_insert hm]
  | addEphemeral rule =>
    change ((s.ephemeral.insert rule).answer domain).or (s.persistent.answer domain) = _
    rw [Layer.answer_insert hm]
  | remove pattern =>
    have hp : patternMatches pattern domain = false := hm
    change (s.ephemeral.answer domain).or ((s.persistent.remove pattern).1.answer domain) = _
    cases ha : s.ephemeral.answer domain with
    | some r => rfl
    | none =>
      rw [h.persistent.answer_remove hp (by simpa [displaces, ha] using hd)]
  | removeEphemeral pattern =>
    have hp : patternMatches pattern domain = false := hm
    change ((s.ephemeral.remove pattern).1.answer domain).or (s.persistent.answer domain) = _
    rw [h.ephemeral.answer_remove hp hd]

theorem WellFormed.resolve_mutation_displaced {s : InnerRuleStore} (h : s.WellFormed)
    {m : Mutation} {domain : String} (hm : patternMatches m.pattern domain = false)
    (hd : s.displaces m domain = true) :
    (m.apply s).1.resolve domain ≠ s.resolve domain := by
  rw [resolve_eq, resolve_eq]
  cases m with
  | add rule => cases hd
  | addEphemeral rule => cases hd
  | remove pattern =>
    have hp : patternMatches pattern domain = false := hm
    change (s.ephemeral.answer domain).or ((s.persistent.remove pattern).1.answer domain) ≠ _
    rw [displaces, Bool.and_eq_true, Option.isNone_iff_eq_none] at hd
    obtain ⟨y,z,hne,hy,hz⟩ := h.persistent.answer_remove_displaced hp hd.2
    rw [hd.1, hy, hz]
    simpa using hne.symm
  | removeEphemeral pattern =>
    have hp : patternMatches pattern domain = false := hm
    change ((s.ephemeral.remove pattern).1.answer domain).or (s.persistent.answer domain) ≠ _
    obtain ⟨y,z,hne,hy,hz⟩ := h.ephemeral.answer_remove_displaced hp hd
    rw [hy, hz]
    simpa using hne.symm

end InnerRuleStore

end SideDns
