import SideDns.Config
import SideDns.Ipc.Handler

namespace SideDns

namespace TextLibrary

def Ascii (text : String) : Prop := ∀ c ∈ text.toList, c.toNat < 128

theorem ascii_of_all {text : String}
    (h : text.toList.all (fun c => decide (c.toNat < 128)) = true) : Ascii text :=
  Utf8.forall_mem_of_all h

def StaysUnicode (text : String) : Prop :=
  ∃ c ∈ text.toList, 128 ≤ c.toNat ∧ c ≠ '\u212a'

structure Documented (lib : TextLibrary) : Prop where
  isMatch : ∀ domain, lib.domainRegexIsMatch domain = domainRegex.rmatch domain.toList
  lowercaseAscii : ∀ text, Ascii text → lib.toLowercase text = Utf8.toAsciiLowercase text
  lowercaseUnicode : ∀ text, StaysUnicode text → ¬ Ascii (lib.toLowercase text)

def ascii : TextLibrary :=
  ⟨fun domain => domainRegex.rmatch domain.toList, Utf8.toAsciiLowercase⟩

theorem toLower_of_unicode {c : Char} (h : 128 ≤ c.toNat) : c.toLower = c := by
  refine Utf8.toLower_of_not_upper ?_
  rintro ⟨-,hle⟩
  have hz : 'Z'.toNat = 90 := rfl
  omega

theorem ascii_documented : ascii.Documented := by
  refine ⟨fun _ => rfl,fun _ _ => rfl,?_⟩
  rintro text ⟨c,hc,hunicode,-⟩ hall
  have hmem : c ∈ (Utf8.toAsciiLowercase text).toList := by
    rw [Utf8.toList_toAsciiLowercase, List.mem_map]
    exact ⟨c,hc,toLower_of_unicode hunicode⟩
  have hlt := hall c hmem
  omega

end TextLibrary

theorem validateDomain_hostName {lib : TextLibrary} (hl : lib.Documented) {domain : String}
    (h : validateDomain lib domain = true) :
    ∃ name : HostName, domain = name.text ∨ domain = "*." ++ name.text := by
  rw [validateDomain, Bool.and_eq_true, hl.isMatch] at h
  obtain ⟨name,hname | hname⟩ := domainRegex_rmatch h.2
  · exact ⟨name,.inl (String.toList_inj.mp hname)⟩
  · refine ⟨name,.inr (String.toList_inj.mp ?_)⟩
    rw [hname, String.toList_append]
    rfl

namespace HostName

theorem mem_text {name : HostName} {c : Char} (h : c ∈ name.text.toList) :
    c = '.' ∨ c ∈ DomainRegex.hostChars := by
  rcases DomainName.mem_text h with hdot | ⟨label,hl,hc⟩
  · exact .inl hdot
  · exact .inr ((name.host label hl).chars c hc)

theorem notMem_text (name : HostName) {c : Char} (hdot : c ≠ '.')
    (hc : c ∉ DomainRegex.hostChars) : c ∉ name.text.toList := by
  intro h
  rcases mem_text h with rfl | hmem
  · exact hdot rfl
  · exact hc hmem

theorem text_not_wildcard (name : HostName) : patternIsWildcard name.text = false := by
  have hstar : '*' ∉ name.text.toList := name.notMem_text (by decide) (by decide)
  rw [patternIsWildcard, Utf8.stripPrefix_eq_none (by decide) hstar, Option.isSome_none]

end HostName

end SideDns
