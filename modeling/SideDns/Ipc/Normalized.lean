import SideDns.Ipc.Requests

namespace SideDns

open FiniteMap (IterationOrder)
open TextLibrary (lowercaseChar lowercaseText)

def hostText (text : String) : Bool :=
  text.toList.all (fun c => c.isLower || c.isDigit || c == '-' || c == '.')

def isNormalized (domain : String) : Bool :=
  match Utf8.stripPrefix domain "*." with
  | some rest => hostText rest
  | none => hostText domain

theorem HostName.mem_dotted {name : HostName} {c : Char} (h : c ∈ name.text.toList) :
    c ∈ '.' :: DomainRegex.hostChars :=
  List.mem_cons.mpr (HostName.mem_text h)

theorem hostText_lowercaseText (name : HostName) :
    hostText (lowercaseText name.text) = true ↔ 'ſ' ∉ name.text.toList := by
  have hplain : ∀ c ∈ '.' :: DomainRegex.hostChars,
      ((lowercaseChar c).isLower || (lowercaseChar c).isDigit || lowercaseChar c == '-' ||
        lowercaseChar c == '.') = true ↔ c ≠ 'ſ' :=
    Utf8.forall_mem_of_all (by decide)
  rw [hostText, TextLibrary.toList_lowercaseText, List.all_map, List.all_eq_true]
  constructor
  · intro h hs
    exact (hplain 'ſ' (HostName.mem_dotted hs)).mp (h 'ſ' hs) rfl
  · intro hs c hc
    refine (hplain c (HostName.mem_dotted hc)).mpr ?_
    rintro rfl
    exact hs hc

theorem isNormalized_lowercaseText (name : HostName) :
    isNormalized (lowercaseText name.text) = hostText (lowercaseText name.text) := by
  have hplain : ∀ c ∈ '.' :: DomainRegex.hostChars, lowercaseChar c ≠ '*' :=
    Utf8.forall_mem_of_all (by decide)
  have hstar : '*' ∉ (lowercaseText name.text).toList := by
    rw [TextLibrary.toList_lowercaseText, List.mem_map]
    rintro ⟨c,hc,heq⟩
    exact hplain c (HostName.mem_dotted hc) heq
  rw [isNormalized, Utf8.stripPrefix_eq_none (by decide) hstar]

theorem isNormalized_toLowercase {lib : TextLibrary} (hl : lib.Unicode) {domain : String}
    (hv : validateDomain lib domain = true) :
    isNormalized (lib.toLowercase domain) = true ↔ 'ſ' ∉ domain.toList := by
  rw [toLowercase_valid hl hv]
  obtain ⟨name,rfl | rfl⟩ := validateDomain_hostName hl.toDocumented hv
  · rw [isNormalized_lowercaseText, hostText_lowercaseText]
  · have hlower : lowercaseText ("*." ++ name.text) = "*." ++ lowercaseText name.text := by
      apply String.toList_inj.mp
      simp [TextLibrary.toList_lowercaseText]
      decide
    rw [isNormalized, hlower, Utf8.stripPrefix_append]
    change hostText (lowercaseText name.text) = true ↔ _
    rw [hostText_lowercaseText]
    simp

def IpcRequest.addsLongS (lib : TextLibrary) : IpcRequest → Bool
  | add domain _ _ => validateDomain lib domain && domain.toList.contains 'ſ'
  | addEphemeral domain _ _ => validateDomain lib domain && domain.toList.contains 'ſ'
  | _ => false

theorem IpcRequest.addsLongS_eq_false_iff {lib : TextLibrary} (hl : lib.Unicode)
    {request : IpcRequest} :
    request.addsLongS lib = false ↔
      ∀ m, request.mutation lib = some m → ∀ rule, m.value = some rule →
        isNormalized rule.domain = true := by
  cases request with
  | add domain target https =>
    cases hv : validateDomain lib domain with
    | false => simp [addsLongS, mutation, hv]
    | true => simp [addsLongS, mutation, hv, Mutation.value, isNormalized_toLowercase hl hv]
  | addEphemeral domain target https =>
    cases hv : validateDomain lib domain with
    | false => simp [addsLongS, mutation, hv]
    | true => simp [addsLongS, mutation, hv, Mutation.value, isNormalized_toLowercase hl hv]
  | remove domain =>
    cases hv : validateDomain lib domain <;> simp [addsLongS, mutation, hv, Mutation.value]
  | removeEphemeral domain =>
    cases hv : validateDomain lib domain <;> simp [addsLongS, mutation, hv, Mutation.value]
  | _ => simp [addsLongS, mutation]

namespace InnerRuleStore

def Normalized (s : InnerRuleStore) : Prop :=
  ∀ kind domain rule, s.entry kind domain = some rule → isNormalized rule.domain = true

theorem normalized_new : new.Normalized := by
  intro kind domain rule h
  cases kind <;> cases h

theorem WellFormed.normalized_apply {s : InnerRuleStore} (h : s.WellFormed) (hn : s.Normalized)
    (m : Mutation) :
    (m.apply s).1.Normalized ↔ ∀ rule, m.value = some rule → isNormalized rule.domain = true := by
  constructor
  · intro hall rule hr
    refine hall m.slot.1 m.slot.2 rule ?_
    rw [h.entry_apply, if_pos rfl, hr]
  · intro hvalue kind domain rule hr
    rw [h.entry_apply] at hr
    split_ifs at hr with hslot
    · exact hvalue rule hr
    · exact hn kind domain rule hr

end InnerRuleStore

namespace AppState

variable {lib : TextLibrary} {order : IterationOrder String DnsRule}

theorem normalized_handle (hl : lib.Unicode) {st : AppState}
    (hn : st.store.inner.Normalized) (request : IpcRequest) :
    (st.handle lib order request).1.store.inner.Normalized ↔ request.addsLongS lib = false := by
  rw [IpcRequest.addsLongS_eq_false_iff hl]
  exact inner_handle_iff hn (st.store.wellFormed.normalized_apply hn) order request

theorem stored_domains_normalized_iff (lib : TextLibrary) (hl : lib.Unicode)
    (order : IterationOrder String DnsRule) (requests : List IpcRequest) :
    (∀ before, before <+: requests →
      (serve lib order AppState.new before).store.inner.Normalized) ↔
      ∀ request ∈ requests, request.addsLongS lib = false :=
  serve_invariant_iff lib order (P := fun st => st.store.inner.Normalized)
    InnerRuleStore.normalized_new (fun _ request hn => normalized_handle hl hn request) requests

theorem plain_domain_normalized :
    (∀ before, before <+: [.add "API.Local" (.v4 0x7f000001 3000) false] →
      (serve TextLibrary.unicode default AppState.new before).store.inner.Normalized) ↔
      ∀ request ∈ [.add "API.Local" (.v4 0x7f000001 3000) false],
        IpcRequest.addsLongS TextLibrary.unicode request = false :=
  stored_domains_normalized_iff TextLibrary.unicode TextLibrary.unicode_unicode default
    [.add "API.Local" (.v4 0x7f000001 3000) false]

theorem long_s_stored :
    let answered := AppState.new.handle TextLibrary.unicode default
      (.add "teſt.dev" (.v4 0x7f000001 3000) false)
    answered.2 = .ok ∧ ¬ answered.1.store.inner.Normalized := by
  refine ⟨by decide +kernel,fun hn => ?_⟩
  have hrule := hn .persistent "teſt.dev" ⟨"teſt.dev", .v4 0x7f000001 3000, false⟩
    (by decide +kernel)
  revert hrule
  decide

end AppState

end SideDns
