import SideDns.Store.Concurrent
import SideDns.Store.Locality

namespace SideDns

namespace Layer

def trailing (l : Layer) (pattern : String) : List DnsRule :=
  (l.wildcard.dropWhile (fun x => x.domain != pattern)).tail

theorem trailing_absent {l : Layer} {pattern : String} (h : ∀ x ∈ l.wildcard, x.domain ≠ pattern) :
    l.trailing pattern = [] := by
  have hdrop : l.wildcard.dropWhile (fun x => x.domain != pattern) = [] := by
    rw [List.dropWhile_eq_nil_iff]
    intro x hx
    simpa using h x hx
  rw [trailing, hdrop, List.tail_nil]

theorem trailing_split {l : Layer} {front back : List DnsRule} {x : DnsRule}
    (hl : l.wildcard = front ++ x :: back) (hf : ∀ y ∈ front, y.domain ≠ x.domain) :
    l.trailing x.domain = back := by
  have hdrop : (front ++ x :: back).dropWhile (fun y => y.domain != x.domain) = x :: back := by
    rw [List.dropWhile_append_of_pos (by simpa using hf), List.dropWhile_cons_of_neg (by simp)]
  rw [trailing, hl, hdrop, List.tail_cons]

theorem WellFormed.stored_cases {l : Layer} (h : l.WellFormed) {domain : String} {old : DnsRule}
    (hold : l.toMap.lookup domain = some old) :
    old.domain = domain ∧
      ((old.isWildcard = false ∧ l.exact.lookup domain = some old) ∨
      (old.isWildcard = true ∧ ∃ front back, l.wildcard = front ++ old :: back ∧
        (∀ y ∈ front, y.domain ≠ old.domain) ∧ ∀ y ∈ back, y.domain ≠ old.domain)) := by
  refine ⟨h.keyed_toMap _ _ hold,?_⟩
  rw [h.lookup_toMap] at hold
  rcases Option.or_eq_some_iff.mp hold with hf | ⟨-,he⟩
  · right
    have hmem := List.mem_of_find?_eq_some hf
    obtain ⟨front,back,hl⟩ := List.append_of_mem hmem
    have hn := h.nodup
    rw [hl, List.map_append, List.map_cons, List.nodup_append] at hn
    obtain ⟨-,hback,hfront⟩ := hn
    refine ⟨h.wildcard old hmem,front,back,hl,?_,?_⟩
    · intro y hy
      exact hfront _ (List.mem_map_of_mem hy) _ List.mem_cons_self
    · intro y hy heq
      exact (List.nodup_cons.mp hback).1 (heq ▸ List.mem_map_of_mem hy)
  · exact .inl ⟨h.exact _ _ he,he⟩

theorem answer_moved {l : Layer} {rule old : DnsRule} {front back : List DnsRule}
    (hw : rule.isWildcard = true) (hd : rule.domain = old.domain)
    (hl : l.wildcard = front ++ old :: back) (hf : ∀ y ∈ front, y.domain ≠ old.domain)
    (hb : ∀ y ∈ back, y.domain ≠ old.domain) (domain : String) :
    (l.insert rule).answer domain =
      ((l.exact.lookup domain).or (front.find? (fun r => r.matches domain))).or
        ((back.find? (fun r => r.matches domain)).or
          ([rule].find? (fun r => r.matches domain))) := by
  have hkeep (rest : List DnsRule) (hr : ∀ y ∈ rest, y.domain ≠ old.domain) :
      rest.filter (fun r => r.domain != rule.domain) = rest := by
    rw [List.filter_eq_self]
    intro y hy
    simpa [hd] using hr y hy
  have hmoved : l.wildcard.filter (fun r => r.domain != rule.domain) = front ++ back := by
    rw [hl, List.filter_append, hkeep front hf, List.filter_cons_of_neg (by simp [hd]),
      hkeep back hb]
  rw [insert_wildcard hw, hmoved]
  simp only [answer, InnerRuleStore.findWildcard, List.find?_append, Option.or_assoc]

theorem WellFormed.answer_matches {l : Layer} (h : l.WellFormed) {domain : String} {r : DnsRule}
    (hr : l.answer domain = some r) : r.matches domain = true := by
  rcases Option.or_eq_some_iff.mp hr with he | ⟨-,hf⟩
  · rw [DnsRule.matches_exact (h.exact _ _ he), h.keyed _ _ he]
    exact beq_self_eq_true domain
  · exact @List.find?_some _ (fun (x : DnsRule) => x.matches domain) _ _ hf

theorem WellFormed.answer_replace_exact {l : Layer} (h : l.WellFormed) {rule old : DnsRule}
    (hw : rule.isWildcard = false) (he : l.exact.lookup rule.domain = some old) :
    (l.insert rule).answer rule.domain =
      if l.answer rule.domain = some old then
        ((l.trailing rule.domain).find? (fun r => r.matches rule.domain)).or (some rule)
      else l.answer rule.domain := by
  have hans : l.answer rule.domain = some old := by
    rw [answer, he, Option.some_or]
  rw [insert_exact hw, if_pos hans, trailing_absent (h.wildcard_ne_exact hw)]
  simp [answer]

theorem WellFormed.answer_replace_wildcard {l : Layer} (h : l.WellFormed) {rule old : DnsRule}
    {front back : List DnsRule} (hw : rule.isWildcard = true) (hd : rule.domain = old.domain)
    (hl : l.wildcard = front ++ old :: back) (hf : ∀ y ∈ front, y.domain ≠ old.domain)
    (hb : ∀ y ∈ back, y.domain ≠ old.domain) {domain : String}
    (hm : rule.matches domain = true) (hm' : old.matches domain = true) :
    (l.insert rule).answer domain =
      if l.answer domain = some old then
        ((l.trailing rule.domain).find? (fun r => r.matches domain)).or (some rule)
      else l.answer domain := by
  have htrail : l.trailing rule.domain = back := by
    rw [hd]
    exact trailing_split hl hf
  have hfirst : (old :: back).find? (fun r => r.matches domain) = some old :=
    List.find?_cons_of_pos hm'
  have hlast : [rule].find? (fun r => r.matches domain) = some rule := List.find?_cons_of_pos hm
  rw [answer_moved hw hd hl hf hb, htrail, hlast, answer, InnerRuleStore.findWildcard, hl,
    List.find?_append, hfirst, ← Option.or_assoc]
  cases he : l.exact.lookup domain with
  | some e =>
    have hne : e ≠ old := by
      rintro rfl
      rw [DnsRule.isWildcard, hd, ← DnsRule.isWildcard, h.exact _ _ he] at hw
      cases hw
    simp [hne]
  | none =>
    cases hfront : front.find? (fun r => r.matches domain) with
    | some y =>
      have hne : y ≠ old := by
        rintro rfl
        exact hf y (List.mem_of_find?_eq_some hfront) rfl
      simp [hne]
    | none => simp

theorem WellFormed.answer_replace {l : Layer} (h : l.WellFormed) {rule old : DnsRule}
    (hold : l.toMap.lookup rule.domain = some old) (domain : String) :
    (l.insert rule).answer domain =
      if l.answer domain = some old then
        ((l.trailing rule.domain).find? (fun r => r.matches domain)).or (some rule)
      else l.answer domain := by
  obtain ⟨hd,hcase⟩ := h.stored_cases hold
  have hsame : rule.matches domain = old.matches domain := by
    rw [DnsRule.matches, DnsRule.matches, hd]
  have hkind : rule.isWildcard = old.isWildcard := by
    rw [DnsRule.isWildcard, DnsRule.isWildcard, hd]
  cases hm : old.matches domain with
  | false =>
    have hne : l.answer domain ≠ some old := by
      intro ha
      rw [h.answer_matches ha] at hm
      cases hm
    rw [answer_insert (hsame.trans hm), if_neg hne]
  | true =>
    rcases hcase with ⟨hw,he⟩ | ⟨hw,front,back,hl,hf,hb⟩
    · rw [DnsRule.matches_exact hw, beq_iff_eq] at hm
      obtain rfl : domain = rule.domain := hm.symm.trans hd
      exact h.answer_replace_exact (hkind.trans hw) he
    · exact h.answer_replace_wildcard (hkind.trans hw) hd.symm hl hf hb (hsame.trans hm) hm

end Layer

namespace InnerRuleStore

def addTo (s : InnerRuleStore) : Lifetime → DnsRule → InnerRuleStore
  | .ephemeral, rule => s.addEphemeral rule
  | .persistent, rule => s.add rule

def resolvedFrom (s : InnerRuleStore) : Lifetime → String → Option DnsRule
  | .ephemeral, domain => s.ephemeral.answer domain
  | .persistent, domain =>
      match s.ephemeral.answer domain with
      | some _ => none
      | none => s.persistent.answer domain

def ReplacedInPlace (s : InnerRuleStore) (kind : Lifetime) (old rule : DnsRule)
    (domain : String) : Prop :=
  (s.addTo kind rule).resolve domain =
    if s.resolvedFrom kind domain = some old then some rule else s.resolve domain

def Overtaken (s : InnerRuleStore) (kind : Lifetime) (old : DnsRule) (domain : String) : Prop :=
  s.resolvedFrom kind domain = some old ∧
    ∃ x ∈ (s.layer kind).trailing old.domain, x.matches domain = true

theorem resolve_of_resolvedFrom {s : InnerRuleStore} {kind : Lifetime} {domain : String}
    {r : DnsRule} (h : s.resolvedFrom kind domain = some r) : s.resolve domain = some r := by
  rw [resolve_eq]
  cases kind with
  | ephemeral =>
    have he : s.ephemeral.answer domain = some r := h
    rw [he, Option.some_or]
  | persistent =>
    simp only [resolvedFrom] at h
    split at h
    · cases h
    · next he => rw [he, h, Option.none_or]

theorem WellFormed.resolve_addTo {s : InnerRuleStore} (h : s.WellFormed) (kind : Lifetime)
    {old rule : DnsRule} (hold : s.entry kind rule.domain = some old) (domain : String) :
    (s.addTo kind rule).resolve domain =
      if s.resolvedFrom kind domain = some old then
        (((s.layer kind).trailing rule.domain).find? (fun r => r.matches domain)).or (some rule)
      else s.resolve domain := by
  rw [resolve_eq, resolve_eq]
  cases kind with
  | ephemeral =>
    have hans := h.ephemeral.answer_replace hold domain
    change ((s.ephemeral.insert rule).answer domain).or (s.persistent.answer domain) =
      if s.ephemeral.answer domain = some old then _ else _
    rw [hans]
    split_ifs with ha
    · rw [Option.or_assoc, Option.some_or]
      rfl
    · rfl
  | persistent =>
    have hans := h.persistent.answer_replace hold domain
    change (s.ephemeral.answer domain).or ((s.persistent.insert rule).answer domain) = _
    cases he : s.ephemeral.answer domain with
    | some r =>
      have hfrom : s.resolvedFrom .persistent domain = none := by simp [resolvedFrom, he]
      simp [hfrom]
    | none =>
      have hfrom : s.resolvedFrom .persistent domain = s.persistent.answer domain := by
        simp [resolvedFrom, he]
      rw [hfrom, Option.none_or, Option.none_or]
      exact hans

theorem WellFormed.wellFormed_layer {s : InnerRuleStore} (h : s.WellFormed) (kind : Lifetime) :
    (s.layer kind).WellFormed := by
  cases kind with
  | ephemeral => exact h.ephemeral
  | persistent => exact h.persistent

theorem WellFormed.entry_domain {s : InnerRuleStore} (h : s.WellFormed) {kind : Lifetime}
    {old : DnsRule} {domain : String} (hold : s.entry kind domain = some old) :
    old.domain = domain :=
  (h.wellFormed_layer kind).keyed_toMap _ _ hold

theorem WellFormed.trailing_ne {s : InnerRuleStore} (h : s.WellFormed) (kind : Lifetime)
    {old : DnsRule} {domain : String} (hold : s.entry kind domain = some old) {x : DnsRule}
    (hx : x ∈ (s.layer kind).trailing domain) : x.domain ≠ domain := by
  have hl := h.wellFormed_layer kind
  obtain ⟨rfl,⟨hw,-⟩ | ⟨-,front,back,hsplit,hf,hb⟩⟩ := hl.stored_cases hold
  · rw [Layer.trailing_absent (hl.wildcard_ne_exact hw)] at hx
    cases hx
  · rw [Layer.trailing_split hsplit hf] at hx
    exact hb x hx

theorem WellFormed.replacedInPlace_iff {s : InnerRuleStore} (h : s.WellFormed) (kind : Lifetime)
    {old rule : DnsRule} (hold : s.entry kind rule.domain = some old) (domain : String) :
    s.ReplacedInPlace kind old rule domain ↔ ¬ s.Overtaken kind old domain := by
  rw [ReplacedInPlace, Overtaken, h.resolve_addTo kind hold, h.entry_domain hold]
  by_cases hfrom : s.resolvedFrom kind domain = some old
  · rw [if_pos hfrom, if_pos hfrom]
    cases hback : ((s.layer kind).trailing rule.domain).find? (fun r => r.matches domain) with
    | none =>
      have hnone := List.find?_eq_none.mp hback
      simpa [hfrom] using hnone
    | some x =>
      have hmem := List.mem_of_find?_eq_some hback
      have hmatch := List.find?_some hback
      have hne : x ≠ rule := fun heq => h.trailing_ne kind hold hmem (congrArg DnsRule.domain heq)
      rw [Option.some_or, Option.some.injEq]
      exact iff_of_false hne (not_not_intro ⟨hfrom,x,hmem,hmatch⟩)
  · rw [if_neg hfrom, if_neg hfrom]
    exact iff_of_true rfl (fun ho => hfrom ho.1)

theorem replacedInPlace_self (s : InnerRuleStore) (kind : Lifetime) (old : DnsRule)
    (domain : String) :
    s.ReplacedInPlace kind old old domain ↔
      (s.addTo kind old).resolve domain = s.resolve domain := by
  rw [ReplacedInPlace]
  split_ifs with hfrom
  · rw [resolve_of_resolvedFrom hfrom]
  · rfl

theorem replaced_in_place_iff (history : List Mutator) (kind : Lifetime) (old rule : DnsRule)
    (hold : (reached history).entry kind rule.domain = some old) (domain : String) :
    let s := reached history
    (s.ReplacedInPlace kind old rule domain ↔ ¬ s.Overtaken kind old domain) ∧
    ((s.addTo kind old).resolve domain = s.resolve domain ↔ ¬ s.Overtaken kind old domain) := by
  intro s
  have h := reached_wellFormed history
  have hself : s.entry kind old.domain = some old := by rwa [h.entry_domain hold]
  refine ⟨h.replacedInPlace_iff kind hold domain,?_⟩
  rw [← s.replacedInPlace_self kind]
  exact h.replacedInPlace_iff kind hself domain

def nestedWildcards : List Mutator :=
  [.single (.add ⟨"*.test", .v4 0x7f000001 3000, false⟩),
    .single (.add ⟨"*.a.test", .v4 0x7f000001 4000, false⟩)]

theorem local_rule_replaced_in_place :
    let s := reached nestedWildcards
    let rule : DnsRule := ⟨"*.test", .v4 0x7f000001 5000, false⟩
    (s.ReplacedInPlace .persistent ⟨"*.test", .v4 0x7f000001 3000, false⟩ rule "b.test" ↔
      ¬ s.Overtaken .persistent ⟨"*.test", .v4 0x7f000001 3000, false⟩ "b.test") ∧
    ((s.addTo .persistent ⟨"*.test", .v4 0x7f000001 3000, false⟩).resolve "b.test" =
      s.resolve "b.test" ↔
      ¬ s.Overtaken .persistent ⟨"*.test", .v4 0x7f000001 3000, false⟩ "b.test") :=
  replaced_in_place_iff nestedWildcards .persistent ⟨"*.test", .v4 0x7f000001 3000, false⟩
    ⟨"*.test", .v4 0x7f000001 5000, false⟩ (by decide) "b.test"

theorem readding_wildcard_yields_to_overlap :
    let s := reached nestedWildcards
    let old : DnsRule := ⟨"*.test", .v4 0x7f000001 3000, false⟩
    s.entry .persistent old.domain = some old ∧
      ¬ s.ReplacedInPlace .persistent old old "x.a.test" ∧
      (s.addTo .persistent old).resolve "x.a.test" ≠ s.resolve "x.a.test" := by
  unfold ReplacedInPlace
  decide

end InnerRuleStore

end SideDns
