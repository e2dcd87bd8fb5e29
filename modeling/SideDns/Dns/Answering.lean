import SideDns.Dns.Coverage
import SideDns.Dns.Presentation

namespace SideDns

open FiniteMap (IterationOrder SetOrder)
open TextLibrary (Ascii)

def RoutesTo (pattern : String) (question : Name) : Prop :=
  match Utf8.stripPrefix pattern "*." with
  | some suffix => ∃ front, front ≠ [] ∧
      lowerLabels question = front ++ lowerLabels (DomainName.split suffix)
  | none => lowerLabels question = lowerLabels (DomainName.split pattern)

theorem AppState.validated_of_add_ok {lib : TextLibrary} {order : IterationOrder String DnsRule}
    {st : AppState} {domain : String} {target : SocketAddr} {https : Bool}
    (h : (st.handle lib order (.add domain target https)).2 = .ok) :
    validateDomain lib domain = true := by
  cases hv : validateDomain lib domain with
  | true => rfl
  | false =>
    simp only [handle, accept, hv, finish] at h
    cases h

theorem ascii_host_labels {name : HostName} (h : Ascii name.text) :
    ∀ label ∈ name.labels, IsOrdinary label := by
  intro label hl
  refine ⟨name.host label hl,fun c hc => h c ?_⟩
  rw [DomainName.text, String.toList_ofList]
  exact DomainName.mem_intercalate_of_mem hl hc

theorem ordinary_of_lowerLabels {labels : List Label} {name : HostName}
    (hname : ∀ label ∈ name.labels, IsOrdinary label)
    (h : lowerLabels labels = lowerLabels name.labels) : ∀ label ∈ labels, IsOrdinary label := by
  intro label hl
  have hmem : label.map Char.toLower ∈ lowerLabels name.labels := by
    rw [← h]
    exact List.mem_map_of_mem hl
  obtain ⟨part,hp,heq⟩ := List.mem_map.mp hmem
  apply IsOrdinary.of_lower
  rw [← heq]
  exact (hname part hp).lower

theorem RoutesTo.tail {name : HostName} {pattern : String} {question : Name}
    (hp : pattern = name.text ∨ pattern = "*." ++ name.text) (h : RoutesTo pattern question) :
    ∃ front tail, question = front ++ tail ∧ lowerLabels tail = lowerLabels name.labels ∧
      (pattern = name.text ∧ front = [] ∨ pattern = "*." ++ name.text ∧ front ≠ []) := by
  rw [RoutesTo] at h
  rcases hp with rfl | rfl
  · have hnone : Utf8.stripPrefix name.text "*." = none := by
      have hexact := name.text_not_wildcard
      rwa [patternIsWildcard, Option.isSome_eq_false_iff, Option.isNone_iff_eq_none] at hexact
    rw [hnone] at h
    rw [DomainName.split_text] at h
    exact ⟨[],question,rfl,h,.inl ⟨rfl,rfl⟩⟩
  · rw [Utf8.stripPrefix_append] at h
    obtain ⟨front,hne,heq⟩ := h
    rw [DomainName.split_text] at heq
    obtain ⟨before,tail,rfl,hfront,htail⟩ := List.map_eq_append_iff.mp heq
    refine ⟨before,tail,rfl,htail,.inr ⟨rfl,?_⟩⟩
    rintro rfl
    exact hne hfront.symm

namespace DnsHandler

variable {Key : Type}

theorem tail_text {hickory : Hickory} {name : HostName} {tail : Name}
    (hv : ∀ label ∈ tail, hickory.Verbatim label)
    (htail : lowerLabels tail = lowerLabels name.labels) :
    Utf8.toAsciiLowercase (".".intercalate (tail.map hickory.displayLabel)) = name.lower.text := by
  rw [Hickory.map_displayLabel hv, text_eq_intercalate, name.text_lower]
  apply String.toList_inj.mp
  rw [Utf8.toList_toAsciiLowercase, Utf8.toList_toAsciiLowercase, String.toList_ofList,
    DomainName.text, String.toList_ofList, DomainName.map_intercalate, DomainName.map_intercalate]
  exact congrArg _ htail

theorem queryDomain_matches {handler : DnsHandler} (hl : handler.text.Documented)
    (hh : handler.hickory.Documented) {name : HostName}
    (hname : ∀ label ∈ name.labels, IsOrdinary label) {front tail : Name} {pattern : String}
    (htail : lowerLabels tail = lowerLabels name.labels)
    (hp : pattern = name.text ∧ front = [] ∨ pattern = "*." ++ name.text ∧ front ≠ [])
    (hu : ∀ label ∈ front ++ tail, handler.hickory.toUnicode label = none) :
    patternMatches (Utf8.toAsciiLowercase pattern) (handler.queryDomain (front ++ tail)) = true ∧
      handler.queryDomain (front ++ tail) ++ "." =
        Utf8.toAsciiLowercase (handler.hickory.display (front ++ tail)) := by
  have hordinary := ordinary_of_lowerLabels hname htail
  have htext := tail_text (fun label hm => hh.verbatim (hordinary label hm)
    (hu label (List.mem_append_right _ hm))) htail
  have hne : tail ≠ [] := by
    rintro rfl
    exact name.nonempty (List.map_eq_nil_iff.mp htail.symm)
  obtain ⟨init,last,hlast⟩ := (List.eq_nil_or_concat tail).resolve_left hne
  rw [List.concat_eq_append] at hlast
  have hquery := queryDomain_of_undecoded hl hh (front ++ init)
    (hordinary last (by simp [hlast])) (by rwa [List.append_assoc, ← hlast])
  rw [List.append_assoc, ← hlast] at hquery
  constructor
  · rcases hp with ⟨rfl,rfl⟩ | ⟨rfl,hfront⟩
    · rw [hquery, List.nil_append, htext, ← name.text_lower,
        patternMatches_exact name.lower.text_not_wildcard]
      exact beq_self_eq_true _
    · have hstar : Utf8.toAsciiLowercase ("*." ++ name.text) = "*." ++ name.lower.text := by
        apply String.toList_inj.mp
        simp [name.text_lower]
      rw [hstar, patternMatches_wildcard, hquery, List.map_append,
        String.intercalate_append_of_ne_nil (by simpa using hfront) (by simpa using hne)]
      refine ⟨Utf8.toAsciiLowercase (".".intercalate (front.map handler.hickory.displayLabel)),?_⟩
      rw [← htext]
      apply String.toList_inj.mp
      simp [DomainRegex.toLower_dot]
  · rw [hquery, Hickory.display]
    apply String.toList_inj.mp
    simp [DomainRegex.toLower_dot]

theorem accepted_rule_answered_iff {handler : DnsHandler} (hl : handler.text.Documented)
    (hh : handler.hickory.Documented) {order : IterationOrder String DnsRule} {before : AppState}
    {domain : String} {target : SocketAddr} {https : Bool} (hd : Ascii domain)
    (hadd : (before.handle handler.text order (.add domain target https)).2 = .ok)
    {ephemeralOrder persistentOrder : IterationOrder String DnsRule} {st : AppState}
    {rule : DnsRule} (hr : rule ∈ st.store.snapshotAll ephemeralOrder persistentOrder)
    (hrule : rule.domain = handler.text.toLowercase domain) (resolver : DomainResolver Key)
    {question : Name} (hw : IsWireName question) (hroutes : RoutesTo domain question)
    {qtype : RecordType} (hq : qtype.isAddress = true) :
    (handler.handleRequest st.store.inner resolver question qtype).2.isLocalNoError = true ↔
      ∀ label ∈ question, handler.hickory.toUnicode label = none ∧
        handler.hickory.isSafe label = true := by
  obtain ⟨name,hname⟩ := validateDomain_hostName hl (AppState.validated_of_add_ok hadd)
  obtain ⟨front,tail,rfl,htail,hp⟩ := hroutes.tail hname
  have hordinary : ∀ label ∈ name.labels, IsOrdinary label := by
    apply ascii_host_labels
    rcases hname with rfl | rfl
    · exact hd
    · intro c hc
      apply hd c
      rw [String.toList_append]
      exact List.mem_append_right _ hc
  rw [handler.isLocalNoError_iff st.store.inner resolver (front ++ tail) hq]
  by_cases hu : ∀ label ∈ front ++ tail, handler.hickory.toUnicode label = none
  · obtain ⟨hmatch,hquery⟩ := queryDomain_matches hl hh hordinary htail hp hu
    have hfound : (resolver.resolveDomain st.store.inner
        (handler.queryDomain (front ++ tail))).2.isSome = true := by
      rw [DomainResolver.resolveDomain_isSome, Bool.or_eq_true]
      refine .inr ((st.resolve_isSome_iff ephemeralOrder persistentOrder _).mpr ⟨rule,hr,?_⟩)
      rw [DnsRule.matches, hrule, hl.lowercaseAscii domain hd]
      exact hmatch
    rw [hquery, hh.fromAsciiSafe _ hw hu]
    constructor
    · exact fun h label hm => ⟨hu label hm,h.2 label hm⟩
    · exact fun h => ⟨hfound,fun label hm => (h label hm).2⟩
  · simp only [not_forall] at hu
    obtain ⟨label,hm,hsome⟩ := hu
    obtain ⟨text,htext⟩ := Option.ne_none_iff_exists'.mp hsome
    refine iff_of_false ?_ fun h => hsome (h label hm).1
    rintro ⟨-,hparsed⟩
    exact queryDomain_of_decoded hl hh hm htext
      (TextLibrary.ascii_of_append (hh.fromAsciiAscii _ hparsed))

theorem mixed_case_subdomain_answered :
    (sampleHandler.handleRequest (AppState.withRule "*.dev.test").store.inner
      (DomainResolver.new : DomainResolver Unit)
      ["Api".toList, "DEV".toList, "test".toList] .a).2.isLocalNoError = true := by
  have hl : sampleHandler.text.Documented := TextLibrary.ascii_documented
  have hh : sampleHandler.hickory.Documented := Hickory.sample_documented
  have hadd : (AppState.new.handle sampleHandler.text default
      (.add "*.dev.test" (.v4 0x7f000001 3000) false)).2 = .ok := by decide +kernel
  have hrule : (AppState.withRule "*.dev.test").store.resolve "api.dev.test" =
      some ⟨"*.dev.test",.v4 0x7f000001 3000,false⟩ := by decide
  have hr := (AppState.resolve_mem_snapshot default default hrule).1
  have hroutes : RoutesTo "*.dev.test" ["Api".toList, "DEV".toList, "test".toList] :=
    ⟨["api".toList],by decide,by decide⟩
  have hd : Ascii "*.dev.test" := TextLibrary.ascii_of_all (by decide)
  refine (accepted_rule_answered_iff hl hh hd hadd hr (by decide) _ ⟨by decide,by decide⟩ hroutes
    rfl).mpr ?_
  decide

theorem punycode_rule_forwarded :
    ¬ ∀ (handler : DnsHandler) (order : IterationOrder String DnsRule) (before st : AppState)
      (domain : String) (target : SocketAddr) (https : Bool) (rule : DnsRule)
      (resolver : DomainResolver Unit) (question : Name) (qtype : RecordType),
      handler.text.Documented → handler.hickory.Documented → Ascii domain →
      (before.handle handler.text order (.add domain target https)).2 = .ok →
      rule ∈ st.store.snapshotAll order order → rule.domain = handler.text.toLowercase domain →
      (∀ key found, resolver.cache.lookup key = some found → st.store.resolve key = some found) →
      IsWireName question → RoutesTo domain question → qtype.isAddress = true →
      (handler.handleRequest st.store.inner resolver question qtype).2.isLocalNoError = true := by
  intro h
  have hroutes : RoutesTo "xn--tda.de" [Hickory.punycodeLabel, "de".toList] := by
    change lowerLabels _ = lowerLabels _
    decide
  have hrule : (AppState.withRule "xn--tda.de").store.resolve "xn--tda.de" =
      some ⟨"xn--tda.de",.v4 0x7f000001 3000,false⟩ := by decide
  have hr := (AppState.resolve_mem_snapshot default default hrule).1
  have hcache : ∀ key found,
      (DomainResolver.new : DomainResolver Unit).cache.lookup key = some found →
        (AppState.withRule "xn--tda.de").store.resolve key = some found := by
    intro key found hf
    cases hf
  have hd : Ascii "xn--tda.de" := TextLibrary.ascii_of_all (by decide)
  have hanswer := h sampleHandler default AppState.new (AppState.withRule "xn--tda.de")
    "xn--tda.de" (.v4 0x7f000001 3000) false _ DomainResolver.new
    [Hickory.punycodeLabel, "de".toList] .a TextLibrary.ascii_documented
    Hickory.sample_documented hd (by decide +kernel) hr (by decide) hcache
    ⟨by decide,by decide⟩ hroutes rfl
  revert hanswer
  decide

end DnsHandler

end SideDns
