import SideDns.Store.Inner

namespace SideDns

open FiniteMap (HashMap IterationOrder KeyedBy)

namespace Layer

structure WellFormed (l : Layer) : Prop where
  keyed : KeyedBy DnsRule.domain l.exact
  exact : ∀ d r, l.exact.lookup d = some r → r.isWildcard = false
  wildcard : ∀ r ∈ l.wildcard, r.isWildcard = true
  nodup : (l.wildcard.map DnsRule.domain).Nodup

theorem wellFormed_empty : WellFormed ⟨∅, []⟩ where
  keyed := FiniteMap.keyedBy_empty _
  exact := by simp
  wildcard := by simp
  nodup := .nil

theorem insert_wildcard {l : Layer} {rule : DnsRule} (h : rule.isWildcard = true) :
    l.insert rule =
      ⟨l.exact, l.wildcard.filter (fun r => r.domain != rule.domain) ++ [rule]⟩ := by
  simp [insert, h]

theorem insert_exact {l : Layer} {rule : DnsRule} (h : rule.isWildcard = false) :
    l.insert rule = ⟨l.exact.insert rule.domain rule, l.wildcard⟩ := by
  simp [insert, h]

theorem remove_cases (l : Layer) (domain : String) :
    (∃ front x back, l.wildcard = front ++ x :: back ∧ x.domain = domain ∧
      l.wildcard.findIdx? (fun x => x.domain == domain) = some front.length ∧
      l.remove domain =
        (⟨l.exact.erase domain, Sequence.swapRemove l.wildcard front.length⟩, some x)) ∨
    ((∀ x ∈ l.wildcard, x.domain ≠ domain) ∧
      l.remove domain = (⟨l.exact.erase domain, l.wildcard⟩, l.exact.lookup domain)) := by
  cases hf : l.wildcard.findIdx? (fun x => x.domain == domain) with
  | none =>
    right
    refine ⟨fun x hx => ?_,by simp [remove, hf]⟩
    simpa using List.findIdx?_eq_none_iff.mp hf x hx
  | some pos =>
    left
    obtain ⟨front,x,back,hl,hlen,hx,-⟩ := Sequence.split_of_findIdx? hf
    have hget : l.wildcard[pos]? = some x := by
      simp [hl, ← hlen]
    refine ⟨front,x,back,hl,by simpa using hx,by rw [hlen],?_⟩
    simp only [remove, hf, hget, hlen]

theorem nodup_filter_append {rules : List DnsRule} (rule : DnsRule)
    (h : (rules.map DnsRule.domain).Nodup) :
    ((rules.filter (fun r => r.domain != rule.domain) ++ [rule]).map DnsRule.domain).Nodup := by
  rw [List.map_append, List.nodup_append]
  refine ⟨h.sublist (List.filter_sublist.map _),by simp,?_⟩
  intro d hd d' hd'
  obtain ⟨r,hr,rfl⟩ := List.mem_map.mp hd
  obtain rfl : d' = rule.domain := by simpa using hd'
  simpa using (List.mem_filter.mp hr).2

theorem WellFormed.insert {l : Layer} (h : l.WellFormed) (rule : DnsRule) :
    (l.insert rule).WellFormed := by
  cases hw : rule.isWildcard with
  | true =>
    rw [insert_wildcard hw]
    refine ⟨h.keyed,h.exact,?_,nodup_filter_append rule h.nodup⟩
    intro r hr
    rcases List.mem_append.mp hr with hr | hr
    · exact h.wildcard r (List.mem_filter.mp hr).1
    · obtain rfl : r = rule := by simpa using hr
      exact hw
  | false =>
    rw [insert_exact hw]
    refine ⟨h.keyed.insert rule,?_,h.wildcard,h.nodup⟩
    intro d r hr
    rw [FiniteMap.lookup_insert_ite] at hr
    split_ifs at hr with hd
    · cases hr
      exact hw
    · exact h.exact d r hr

theorem WellFormed.erase_exact {l : Layer} (h : l.WellFormed) (domain : String) :
    (⟨l.exact.erase domain, l.wildcard⟩ : Layer).WellFormed := by
  refine ⟨h.keyed.erase domain,?_,h.wildcard,h.nodup⟩
  intro d r hr
  rw [FiniteMap.lookup_erase_ite] at hr
  split_ifs at hr
  exact h.exact d r hr

theorem WellFormed.remove {l : Layer} (h : l.WellFormed) (domain : String) :
    (l.remove domain).1.WellFormed := by
  have he := h.erase_exact domain
  rcases l.remove_cases domain with ⟨front,x,back,hl,-,-,hr⟩ | ⟨-,hr⟩
  · have hp := Sequence.swapRemove_perm front back x
    have hsub : (front ++ back).Sublist l.wildcard := by
      rw [hl]
      exact (List.sublist_cons_self x back).append_left front
    rw [hr]
    refine ⟨he.keyed,he.exact,?_,?_⟩
    · intro r hr
      rw [hl] at hr
      exact h.wildcard r (hsub.subset (hp.mem_iff.mp hr))
    · rw [hl]
      exact (hp.map _).nodup_iff.mpr (h.nodup.sublist (hsub.map _))
  · rw [hr]
    exact he

def toMap (l : Layer) : HashMap String DnsRule :=
  FiniteMap.insertAll DnsRule.domain l.exact l.wildcard

theorem WellFormed.lookup_toMap {l : Layer} (h : l.WellFormed) (domain : String) :
    l.toMap.lookup domain =
      (l.wildcard.find? (fun r => r.domain == domain)).or (l.exact.lookup domain) :=
  FiniteMap.lookup_insertAll _ _ h.nodup domain

theorem WellFormed.exact_ne_wildcard {l : Layer} (h : l.WellFormed) {r : DnsRule}
    (hr : r ∈ l.wildcard) : l.exact.lookup r.domain = none := by
  cases he : l.exact.lookup r.domain with
  | none => rfl
  | some r' =>
    have hw : r'.isWildcard = r.isWildcard := by
      simp only [DnsRule.isWildcard, h.keyed _ _ he]
    rw [h.exact _ _ he, h.wildcard r hr] at hw
    cases hw

theorem WellFormed.wildcard_ne_exact {l : Layer} (h : l.WellFormed) {rule : DnsRule}
    (hw : rule.isWildcard = false) : ∀ r ∈ l.wildcard, r.domain ≠ rule.domain := by
  intro r hr heq
  have ht := h.wildcard r hr
  rw [DnsRule.isWildcard, heq] at ht
  rw [DnsRule.isWildcard, ht] at hw
  cases hw

theorem WellFormed.keyed_toMap {l : Layer} (h : l.WellFormed) :
    KeyedBy DnsRule.domain l.toMap := by
  intro d r hr
  rw [h.lookup_toMap] at hr
  rcases Option.or_eq_some_iff.mp hr with hf | ⟨-,he⟩
  · simpa using List.find?_some hf
  · exact h.keyed d r he

theorem WellFormed.values_toMap {l : Layer} (h : l.WellFormed) :
    FiniteMap.values l.toMap = FiniteMap.values l.exact + (l.wildcard : Multiset DnsRule) := by
  apply FiniteMap.values_insertAll _ _ h.nodup
  intro r hr
  rw [← Finmap.lookup_eq_none]
  exact h.exact_ne_wildcard hr

theorem WellFormed.size_toMap {l : Layer} (h : l.WellFormed) :
    FiniteMap.size l.toMap = l.len := by
  rw [← FiniteMap.card_values, h.values_toMap, Multiset.card_add, FiniteMap.card_values, len,
    Multiset.coe_card]

theorem WellFormed.coe_rules {l : Layer} (h : l.WellFormed)
    (order : IterationOrder String DnsRule) :
    (l.rules order : Multiset DnsRule) = FiniteMap.values l.toMap := by
  rw [h.values_toMap, rules, ← Multiset.coe_add, order.visit_values]

theorem WellFormed.toMap_insert {l : Layer} (h : l.WellFormed) (rule : DnsRule) :
    (l.insert rule).toMap = l.toMap.insert rule.domain rule := by
  apply Finmap.ext_lookup
  intro d
  rw [(h.insert rule).lookup_toMap]
  cases hw : rule.isWildcard with
  | true =>
    rw [insert_wildcard hw]
    rcases eq_or_ne d rule.domain with rfl | hd
    · have hf : (l.wildcard.filter (fun r => r.domain != rule.domain)).find?
          (fun r => r.domain == rule.domain) = none := by
        apply Sequence.find?_key_none
        intro r hr
        simpa using (List.mem_filter.mp hr).2
      simp [List.find?_append, hf]
    · rw [Finmap.lookup_insert_of_ne _ hd, h.lookup_toMap, List.find?_append]
      have hr : [rule].find? (fun r => r.domain == d) = none := by simp [hd.symm]
      have hf : (l.wildcard.filter (fun r => r.domain != rule.domain)).find?
          (fun r => r.domain == d) = l.wildcard.find? (fun r => r.domain == d) := by
        rw [List.find?_filter]
        congr 1
        funext r
        rcases eq_or_ne r.domain d with he | he
        · simp [he, hd]
        · simp [he]
      rw [hr, hf, Option.or_none]
  | false =>
    rw [insert_exact hw]
    rcases eq_or_ne d rule.domain with rfl | hd
    · rw [Finmap.lookup_insert, Sequence.find?_key_none (h.wildcard_ne_exact hw),
        Finmap.lookup_insert, Option.none_or]
    · rw [Finmap.lookup_insert_of_ne _ hd, Finmap.lookup_insert_of_ne _ hd, h.lookup_toMap]

theorem WellFormed.lookup_toMap_insert {l : Layer} (h : l.WellFormed) (rule : DnsRule)
    (domain : String) :
    (l.insert rule).toMap.lookup domain =
      if domain = rule.domain then some rule else l.toMap.lookup domain := by
  rw [h.toMap_insert, FiniteMap.lookup_insert_ite]

theorem WellFormed.remove_returns {l : Layer} (h : l.WellFormed) (domain : String) :
    (l.remove domain).2 = l.toMap.lookup domain := by
  rw [h.lookup_toMap]
  rcases l.remove_cases domain with ⟨front,x,back,hl,hx,-,hr⟩ | ⟨hn,hr⟩
  · have hf : l.wildcard.find? (fun r => r.domain == domain) = some x :=
      (Sequence.find?_key_iff _ h.nodup).mpr ⟨by simp [hl],hx⟩
    rw [hr, hf, Option.some_or]
  · rw [hr, Sequence.find?_key_none hn, Option.none_or]

theorem WellFormed.toMap_remove {l : Layer} (h : l.WellFormed) (domain : String) :
    (l.remove domain).1.toMap = l.toMap.erase domain := by
  apply Finmap.ext_lookup
  intro d
  rw [(h.remove domain).lookup_toMap]
  rcases l.remove_cases domain with ⟨front,x,back,hl,hx,-,hr⟩ | ⟨hn,hr⟩
  · rw [hr]
    have hp := Sequence.swapRemove_perm front back x
    have hn := h.nodup
    rw [hl] at hn ⊢
    have hn' : ((front ++ back).map DnsRule.domain).Nodup :=
      hn.sublist (((List.sublist_cons_self x back).append_left front).map _)
    have hfind : (Sequence.swapRemove (front ++ x :: back) front.length).find?
        (fun r => r.domain == d) = (front ++ back).find? (fun r => r.domain == d) :=
      Sequence.find?_key_perm _ hp ((hp.map _).nodup_iff.mpr hn') d
    rw [hfind]
    rcases eq_or_ne d domain with rfl | hd
    · have hrest : ∀ y ∈ front ++ back, y.domain ≠ d := by
        intro y hy heq
        have hperm : (front ++ x :: back).Perm (x :: (front ++ back)) := List.perm_middle
        have hc := (hperm.map DnsRule.domain).nodup_iff.mp hn
        exact (List.nodup_cons.mp hc).1 (List.mem_map.mpr ⟨y,hy,heq.trans hx.symm⟩)
      rw [Finmap.lookup_erase, Sequence.find?_key_none hrest, Finmap.lookup_erase, Option.none_or]
    · rw [Finmap.lookup_erase_ne hd, Finmap.lookup_erase_ne hd, h.lookup_toMap, hl,
        List.find?_append, List.find?_append,
        List.find?_cons_of_neg (by simpa [hx] using hd.symm)]
  · rw [hr]
    rcases eq_or_ne d domain with rfl | hd
    · rw [Finmap.lookup_erase, Sequence.find?_key_none hn, Finmap.lookup_erase, Option.none_or]
    · rw [Finmap.lookup_erase_ne hd, Finmap.lookup_erase_ne hd, h.lookup_toMap]

theorem WellFormed.lookup_toMap_remove {l : Layer} (h : l.WellFormed) (removed domain : String) :
    (l.remove removed).1.toMap.lookup domain =
      if domain = removed then none else l.toMap.lookup domain := by
  rw [h.toMap_remove, FiniteMap.lookup_erase_ite]

theorem remove_none {l : Layer} {domain : String} (hr : (l.remove domain).2 = none) :
    (l.remove domain).1 = l := by
  rcases l.remove_cases domain with ⟨front,x,back,-,-,-,he⟩ | ⟨-,he⟩
  · rw [he] at hr
    cases hr
  · rw [he] at hr ⊢
    have hex : l.exact.erase domain = l.exact := by
      apply Finmap.ext_lookup
      intro d
      rcases eq_or_ne d domain with rfl | hd
      · rw [Finmap.lookup_erase]
        exact hr.symm
      · rw [Finmap.lookup_erase_ne hd]
    rw [hex]

end Layer

namespace InnerRuleStore

structure WellFormed (s : InnerRuleStore) : Prop where
  ephemeral : s.ephemeral.WellFormed
  persistent : s.persistent.WellFormed

theorem wellFormed_new : new.WellFormed := ⟨Layer.wellFormed_empty,Layer.wellFormed_empty⟩

theorem WellFormed.add {s : InnerRuleStore} (h : s.WellFormed) (rule : DnsRule) :
    (s.add rule).WellFormed :=
  ⟨h.ephemeral,h.persistent.insert rule⟩

theorem WellFormed.addAll {s : InnerRuleStore} (h : s.WellFormed) (rules : List DnsRule) :
    (s.addAll rules).WellFormed := by
  induction rules generalizing s with
  | nil => exact h
  | cons rule rules ih => exact ih (h.add rule)

theorem WellFormed.addEphemeral {s : InnerRuleStore} (h : s.WellFormed) (rule : DnsRule) :
    (s.addEphemeral rule).WellFormed :=
  ⟨h.ephemeral.insert rule,h.persistent⟩

theorem WellFormed.remove {s : InnerRuleStore} (h : s.WellFormed) (domain : String) :
    (s.remove domain).1.WellFormed :=
  ⟨h.ephemeral,h.persistent.remove domain⟩

theorem WellFormed.removeEphemeral {s : InnerRuleStore} (h : s.WellFormed) (domain : String) :
    (s.removeEphemeral domain).1.WellFormed :=
  ⟨h.ephemeral.remove domain,h.persistent⟩

end InnerRuleStore

theorem Mutation.apply_wellFormed {s : InnerRuleStore} (h : s.WellFormed) (m : Mutation) :
    (m.apply s).1.WellFormed := by
  cases m with
  | add rule => exact h.add rule
  | addEphemeral rule => exact h.addEphemeral rule
  | remove domain => exact h.remove domain
  | removeEphemeral domain => exact h.removeEphemeral domain

theorem Mutator.apply_wellFormed {s : InnerRuleStore} (h : s.WellFormed) (m : Mutator) :
    (m.apply s).1.WellFormed := by
  cases m with
  | single mutation => exact mutation.apply_wellFormed h
  | addAll rules => exact h.addAll rules

theorem Mutator.run_wellFormed {s : InnerRuleStore} (h : s.WellFormed) (history : List Mutator) :
    (Mutator.run history s).1.WellFormed := by
  induction history generalizing s with
  | nil => exact h
  | cons m ms ih => exact ih (m.apply_wellFormed h)

theorem InnerRuleStore.reached_wellFormed (history : List Mutator) :
    (InnerRuleStore.reached history).WellFormed :=
  Mutator.run_wellFormed wellFormed_new history

end SideDns
