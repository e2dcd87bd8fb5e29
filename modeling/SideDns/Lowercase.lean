import SideDns.Validation

namespace SideDns

open Pattern (Respects respects_oneOf respects_sequence)

namespace TextLibrary

def lowercaseChar (c : Char) : Char := if c = '\u212a' then 'k' else c.toLower

def lowercaseText (text : String) : String := String.ofList (text.toList.map lowercaseChar)

def regexAlphabet (c : Char) : Prop := c.toNat < 128 ∨ c = 'ſ' ∨ c = '\u212a'

instance : DecidablePred regexAlphabet :=
  fun c => inferInstanceAs (Decidable (c.toNat < 128 ∨ c = 'ſ' ∨ c = '\u212a'))

structure Unicode (lib : TextLibrary) : Prop extends lib.Documented where
  lowercase : ∀ text, (∀ c ∈ text.toList, regexAlphabet c) →
    lib.toLowercase text = lowercaseText text

def unicode : TextLibrary := ⟨fun domain => domainRegex.rmatch domain.toList, lowercaseText⟩

@[simp] theorem toList_lowercaseText (text : String) :
    (lowercaseText text).toList = text.toList.map lowercaseChar := by
  rw [lowercaseText, String.toList_ofList]

theorem lowercaseChar_of_ne {c : Char} (h : c ≠ '\u212a') : lowercaseChar c = c.toLower := if_neg h

theorem ne_kelvin {c : Char} (h : c.toNat < 128) : c ≠ '\u212a' := by
  rintro rfl
  revert h
  decide

theorem unicode_unicode : unicode.Unicode where
  isMatch := fun _ => rfl
  lowercaseAscii := by
    intro text h
    refine congrArg String.ofList (List.map_congr_left fun c hc => ?_)
    exact lowercaseChar_of_ne (ne_kelvin (h c hc))
  lowercaseUnicode := by
    rintro text ⟨c,hc,hunicode,hne⟩ hall
    have hlower : lowercaseChar c = c :=
      (lowercaseChar_of_ne hne).trans (toLower_of_unicode hunicode)
    have hmem : c ∈ (unicode.toLowercase text).toList := by
      rw [unicode, toList_lowercaseText, List.mem_map]
      exact ⟨c,hc,hlower⟩
    have hlt := hall c hmem
    omega
  lowercase := fun _ _ => rfl

def cased : List Char := '\u212a' :: (List.range 26).map (fun i => Char.ofNat ('A'.toNat + i))

theorem lowercaseChar_of_notMem {c : Char} (h : c ∉ cased) : lowercaseChar c = c := by
  rw [cased, List.mem_cons, not_or] at h
  rw [lowercaseChar_of_ne h.1]
  refine Utf8.toLower_of_not_upper fun hupper => h.2 ?_
  have hA : 'A'.toNat = 65 := rfl
  have hZ : 'Z'.toNat = 90 := rfl
  refine List.mem_map.mpr ⟨c.toNat - 65,List.mem_range.mpr (by omega),?_⟩
  have hsum : 'A'.toNat + (c.toNat - 65) = c.toNat := by omega
  rw [hsum, Char.ofNat_toNat]

def insensitive (as : List Char) : Bool :=
  cased.all (fun c => decide (lowercaseChar c ∈ as) == decide (c ∈ as))

theorem mem_lowercaseChar {as : List Char} (h : insensitive as = true) (c : Char) :
    lowercaseChar c ∈ as ↔ c ∈ as := by
  by_cases hc : c ∈ cased
  · exact by simpa using List.all_eq_true.mp h c hc
  · rw [lowercaseChar_of_notMem hc]

theorem domainRegex_respects : Respects lowercaseChar domainRegex := by
  have hletters : Respects lowercaseChar (Pattern.oneOf DomainRegex.letters) :=
    respects_oneOf (mem_lowercaseChar (by decide))
  have halphanumeric : Respects lowercaseChar (Pattern.oneOf DomainRegex.alphanumeric) :=
    respects_oneOf (mem_lowercaseChar (by decide))
  have hhostChars : Respects lowercaseChar (Pattern.oneOf DomainRegex.hostChars) :=
    respects_oneOf (mem_lowercaseChar (by decide))
  have hdot : Respects lowercaseChar (Pattern.oneOf ['.']) :=
    respects_oneOf (mem_lowercaseChar (by decide))
  have hlabelDot : Respects lowercaseChar DomainRegex.labelDot :=
    halphanumeric.mul (((hhostChars.upTo 61).mul halphanumeric).opt.mul hdot)
  have hlocalhost : Respects lowercaseChar DomainRegex.localhost := by
    have hclasses :
        ("localhost".toList.map DomainRegex.caseInsensitive).all insensitive = true := by
      decide
    exact respects_sequence fun as has => mem_lowercaseChar (List.all_eq_true.mp hclasses as has)
  have hwildcard : Respects lowercaseChar DomainRegex.wildcard := by
    have hclasses : [['*'], ['.']].all insensitive = true := by decide
    exact respects_sequence fun as has => mem_lowercaseChar (List.all_eq_true.mp hclasses as has)
  exact hlocalhost.add (hwildcard.opt.mul (hlabelDot.oneOrMore.mul (hletters.between 2 63)))

theorem cased_forall {P : Char → Prop} (h : ∀ c ∈ cased, P c)
    (hrest : ∀ c, lowercaseChar c = c → c.toLower = c → P c) (c : Char) : P c := by
  by_cases hc : c ∈ cased
  · exact h c hc
  · have hlower := lowercaseChar_of_notMem hc
    have hne : c ≠ '\u212a' := fun heq => hc (heq ▸ List.mem_cons_self)
    exact hrest c hlower ((lowercaseChar_of_ne hne).symm.trans hlower)

theorem lowercaseChar_idem (c : Char) : lowercaseChar (lowercaseChar c) = lowercaseChar c := by
  refine cased_forall (P := fun c => lowercaseChar (lowercaseChar c) = lowercaseChar c) ?_ ?_ c
  · exact Utf8.forall_mem_of_all (by decide)
  · intro c hc _
    rw [hc, hc]

theorem lowercaseChar_toLower (c : Char) : lowercaseChar c.toLower = lowercaseChar c := by
  refine cased_forall (P := fun c => lowercaseChar c.toLower = lowercaseChar c) ?_ ?_ c
  · exact Utf8.forall_mem_of_all (by decide)
  · intro c _ hc
    rw [hc]

theorem utf8Size_lowercaseChar (c : Char) : (lowercaseChar c).utf8Size ≤ c.utf8Size := by
  refine cased_forall (P := fun c => (lowercaseChar c).utf8Size ≤ c.utf8Size) ?_ ?_ c
  · exact Utf8.forall_mem_of_all (by decide)
  · intro c hc _
    rw [hc]

theorem utf8Size_toLower (c : Char) : c.toLower.utf8Size = c.utf8Size := by
  refine cased_forall (P := fun c => c.toLower.utf8Size = c.utf8Size) ?_ ?_ c
  · exact Utf8.forall_mem_of_all (by decide)
  · intro c _ hc
    rw [hc]

theorem lowercaseText_idem (text : String) :
    lowercaseText (lowercaseText text) = lowercaseText text := by
  apply String.toList_inj.mp
  simp [lowercaseChar_idem, Function.comp_def]

theorem map_lowercaseChar_toLower (l : List Char) :
    (l.map Char.toLower).map lowercaseChar = l.map lowercaseChar := by
  simp [lowercaseChar_toLower, Function.comp_def]

theorem lowercaseText_eqIgnoreAsciiCase {text other : String}
    (h : Utf8.eqIgnoreAsciiCase text other = true) : lowercaseText text = lowercaseText other := by
  rw [Utf8.eqIgnoreAsciiCase_iff] at h
  rw [lowercaseText, lowercaseText, ← map_lowercaseChar_toLower, h, map_lowercaseChar_toLower]

theorem len_eqIgnoreAsciiCase {text other : String}
    (h : Utf8.eqIgnoreAsciiCase text other = true) : Utf8.len text = Utf8.len other := by
  rw [Utf8.eqIgnoreAsciiCase_iff, ← Utf8.toList_toAsciiLowercase,
    ← Utf8.toList_toAsciiLowercase] at h
  rw [← Utf8.len_map_eq utf8Size_toLower (Utf8.toList_toAsciiLowercase text),
    ← Utf8.len_map_eq utf8Size_toLower (Utf8.toList_toAsciiLowercase other),
    String.toList_inj.mp h]

end TextLibrary

open TextLibrary

section Validated

variable {lib : TextLibrary} (hl : lib.Unicode) {domain : String}
  (hv : validateDomain lib domain = true)

include hl hv

theorem regexAlphabet_of_valid : ∀ c ∈ domain.toList, regexAlphabet c := by
  have hhost : ∀ c ∈ '*' :: '.' :: DomainRegex.hostChars, regexAlphabet c :=
    Utf8.forall_mem_of_all (by decide)
  have hname (name : HostName) : ∀ c ∈ name.text.toList, regexAlphabet c := by
    intro c hc
    rcases HostName.mem_text hc with rfl | hmem
    · exact hhost '.' (by simp)
    · exact hhost c (by simp [hmem])
  obtain ⟨name,rfl | rfl⟩ := validateDomain_hostName hl.toDocumented hv
  · exact hname name
  · intro c hc
    rw [String.toList_append, List.mem_append] at hc
    rcases hc with hc | hc
    · exact hhost c (by revert hc; simp +contextual [or_imp])
    · exact hname name c hc

theorem toLowercase_valid : lib.toLowercase domain = lowercaseText domain :=
  hl.lowercase domain (regexAlphabet_of_valid hl hv)

theorem validateDomain_toLowercase : validateDomain lib (lib.toLowercase domain) = true := by
  have hlower := toLowercase_valid hl hv
  have hlen := Utf8.len_map_le utf8Size_lowercaseChar (toList_lowercaseText domain)
  rw [validateDomain, Bool.and_eq_true, decide_eq_true_eq, hl.isMatch] at hv ⊢
  rw [hlower, toList_lowercaseText]
  exact ⟨by omega,(domainRegex_respects _).mpr hv.2⟩

theorem toLowercase_idem : lib.toLowercase (lib.toLowercase domain) = lib.toLowercase domain := by
  have hv' := validateDomain_toLowercase hl hv
  rw [toLowercase_valid hl hv', toLowercase_valid hl hv, lowercaseText_idem]

theorem validateDomain_eqIgnoreAsciiCase {other : String}
    (h : Utf8.eqIgnoreAsciiCase domain other = true) :
    validateDomain lib other = true ∧ lib.toLowercase other = lib.toLowercase domain := by
  have hlower := lowercaseText_eqIgnoreAsciiCase h
  have hlen := len_eqIgnoreAsciiCase h
  have hvalid : validateDomain lib other = true := by
    rw [validateDomain, Bool.and_eq_true, decide_eq_true_eq, hl.isMatch] at hv ⊢
    rw [← domainRegex_respects, ← toList_lowercaseText] at hv ⊢
    rw [← hlower, ← hlen]
    exact hv
  exact ⟨hvalid,by rw [toLowercase_valid hl hvalid, toLowercase_valid hl hv, hlower]⟩

end Validated

end SideDns
