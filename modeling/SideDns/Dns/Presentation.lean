import Mathlib.Algebra.GroupWithZero.Nat
import SideDns.Dns.Server
import SideDns.Validation

namespace SideDns

open TextLibrary (Ascii StaysUnicode)

def lowerLabels (labels : List Label) : List Label :=
  labels.map fun label => label.map Char.toLower

structure IsOrdinary (label : Label) : Prop extends IsHostLabel label where
  ascii : ∀ c ∈ label, c.toNat < 128

structure IsWireName (name : Name) : Prop where
  label_size : ∀ label ∈ name, 1 ≤ label.length ∧ label.length ≤ 63
  name_size : (name.map fun label => label.length + 1).sum + 1 ≤ 255

structure Hickory.Documented (hickory : Hickory) : Prop where
  decodesPunycode : ∀ label text, hickory.toUnicode label = some text →
    (label.take 4).map Char.toLower = ['x', 'n', '-', '-']
  displayDecoded : ∀ label text, hickory.toUnicode label = some text →
    hickory.displayLabel label = text ∧ StaysUnicode text
  displayOrdinary : ∀ label, IsOrdinary label → hickory.toUnicode label = none →
    hickory.displayLabel label = String.ofList label
  displayAscii : ∀ label, hickory.toUnicode label = none → Ascii (hickory.displayLabel label)
  ordinarySafe : ∀ label, IsOrdinary label → hickory.isSafe label = true
  fromAsciiAscii : ∀ text, (hickory.fromAscii text).isSome = true → Ascii text
  fromAsciiSafe : ∀ name, IsWireName name → (∀ label ∈ name, hickory.toUnicode label = none) →
    ((hickory.fromAscii (Utf8.toAsciiLowercase (hickory.display name))).isSome = true ↔
      ∀ label ∈ name, hickory.isSafe label = true)

structure Hickory.Escaping (hickory : Hickory) : Prop extends hickory.Documented where
  hyphenEscaped : ∀ label, label.head? = some '-' →
    (∀ c ∈ label, c ∈ DomainRegex.hostChars ∧ c.toNat < 128) →
    hickory.displayLabel label = "\\" ++ String.ofList label

namespace TextLibrary

theorem ascii_append {s t : String} (hs : Ascii s) (ht : Ascii t) : Ascii (s ++ t) := by
  intro c hc
  rw [String.toList_append] at hc
  exact (List.mem_append.mp hc).elim (hs c) (ht c)

theorem ascii_of_append {s t : String} (h : Ascii (s ++ t)) : Ascii s := by
  intro c hc
  apply h c
  rw [String.toList_append]
  exact List.mem_append_left _ hc

theorem ascii_intercalate {parts : List String} (h : ∀ part ∈ parts, Ascii part) :
    Ascii (".".intercalate parts) := by
  intro c hc
  rw [String.toList_intercalate] at hc
  rcases DomainName.mem_intercalate hc with hdot | ⟨part,hp,hmem⟩
  · obtain rfl := List.mem_singleton.mp hdot
    decide
  · obtain ⟨text,ht,rfl⟩ := List.mem_map.mp hp
    exact h text ht c hmem

end TextLibrary

theorem text_eq_intercalate (labels : List Label) :
    ".".intercalate (labels.map String.ofList) = String.ofList (['.'].intercalate labels) := by
  apply String.toList_inj.mp
  rw [String.toList_intercalate, String.toList_ofList, List.map_map]
  simp [Function.comp_def]

namespace DomainRegex

theorem toLower_cases (c : Char) :
    c.toLower = c ∨ (c.toLower ∈ alphanumeric ∧ c ∈ alphanumeric ∧ c.toNat < 128) := by
  have hupper : ∀ n < 128, 'A'.toNat ≤ n → n ≤ 'Z'.toNat →
      (Char.ofNat n).toLower ∈ alphanumeric ∧ Char.ofNat n ∈ alphanumeric := by
    decide
  by_cases hc : 'A'.toNat ≤ c.toNat ∧ c.toNat ≤ 'Z'.toNat
  · have hlt : c.toNat < 128 := by
      have hz : 'Z'.toNat = 90 := rfl
      omega
    have hmem := hupper c.toNat hlt hc.1 hc.2
    rw [Char.ofNat_toNat] at hmem
    exact .inr ⟨hmem.1,hmem.2,hlt⟩
  · exact .inl (Utf8.toLower_of_not_upper hc)

theorem toLower_alphanumeric : ∀ c ∈ alphanumeric, c.toLower ∈ alphanumeric :=
  Utf8.forall_mem_of_all (by decide)

theorem toLower_hostChars : ∀ c ∈ hostChars, c.toLower ∈ hostChars :=
  Utf8.forall_mem_of_all (by decide)

theorem toLower_dot : Char.toLower '.' = '.' := by decide

theorem toLower_ascii {c : Char} : c.toLower.toNat < 128 ↔ c.toNat < 128 := by
  have hlower : ∀ d ∈ alphanumeric, d.toNat < 128 → d.toLower.toNat < 128 :=
    Utf8.forall_mem_of_all (by decide)
  rcases toLower_cases c with heq | ⟨-,hc,hlt⟩
  · rw [heq]
  · exact iff_of_true (hlower c hc hlt) hlt

theorem mem_of_toLower_alphanumeric {c : Char} (h : c.toLower ∈ alphanumeric) :
    c ∈ alphanumeric := by
  rcases toLower_cases c with heq | ⟨-,hc,-⟩
  · exact heq ▸ h
  · exact hc

theorem mem_of_toLower_hostChars {c : Char} (h : c.toLower ∈ hostChars) : c ∈ hostChars := by
  rcases toLower_cases c with heq | ⟨-,hc,-⟩
  · exact heq ▸ h
  · exact mem_hostChars hc

end DomainRegex

theorem IsHostLabel.lower {label : List Char} (h : IsHostLabel label) :
    IsHostLabel (label.map Char.toLower) := by
  obtain ⟨c,hc,hhead⟩ := h.starts
  refine ⟨⟨c.toLower,DomainRegex.toLower_alphanumeric c hc,by rw [List.head?_map, hhead]; rfl⟩,?_⟩
  exact List.forall_mem_map.mpr fun d hd => DomainRegex.toLower_hostChars d (h.chars d hd)

theorem IsHostLabel.of_lower {label : List Char} (h : IsHostLabel (label.map Char.toLower)) :
    IsHostLabel label := by
  obtain ⟨c,hc,hhead⟩ := h.starts
  rw [List.head?_map, Option.map_eq_some_iff] at hhead
  obtain ⟨d,hd,rfl⟩ := hhead
  refine ⟨⟨d,DomainRegex.mem_of_toLower_alphanumeric hc,hd⟩,?_⟩
  intro e he
  exact DomainRegex.mem_of_toLower_hostChars (h.chars _ (List.mem_map_of_mem he))

theorem IsOrdinary.lower {label : Label} (h : IsOrdinary label) :
    IsOrdinary (label.map Char.toLower) := by
  refine ⟨h.toIsHostLabel.lower,?_⟩
  exact List.forall_mem_map.mpr fun d hd => DomainRegex.toLower_ascii.mpr (h.ascii d hd)

theorem IsOrdinary.of_lower {label : Label} (h : IsOrdinary (label.map Char.toLower)) :
    IsOrdinary label :=
  ⟨h.toIsHostLabel.of_lower,fun _ hc =>
    DomainRegex.toLower_ascii.mp (h.ascii _ (List.mem_map_of_mem hc))⟩

theorem IsOrdinary.separated {label : Label} (h : IsOrdinary label) : label ≠ [] ∧ '.' ∉ label :=
  DomainRegex.separated h.toIsHostLabel

namespace Hickory

def Verbatim (hickory : Hickory) (label : Label) : Prop :=
  hickory.displayLabel label = String.ofList label

theorem Documented.verbatim {hickory : Hickory} (h : hickory.Documented) {label : Label}
    (hl : IsOrdinary label) (hu : hickory.toUnicode label = none) : hickory.Verbatim label :=
  h.displayOrdinary label hl hu

theorem map_displayLabel {hickory : Hickory} {name : Name}
    (h : ∀ label ∈ name, hickory.Verbatim label) :
    name.map hickory.displayLabel = name.map String.ofList :=
  List.map_congr_left h

theorem trim_display {hickory : Hickory} (front : Name) {last : Label}
    (hv : hickory.Verbatim last) (hne : last ≠ []) (hdot : '.' ∉ last) :
    Utf8.trimEndMatches (hickory.display (front ++ [last])) '.' =
      ".".intercalate ((front ++ [last]).map hickory.displayLabel) := by
  refine Utf8.trimEndMatches_append _ '.' ?_
  have hlast : (hickory.displayLabel last).toList = last := by
    rw [hv, String.toList_ofList]
  rw [String.toList_intercalate, List.map_append, List.map_append, List.map_singleton,
    List.map_singleton, DomainName.intercalate_concat, hlast,
    List.getLast?_append_of_ne_nil _ hne]
  exact fun hlast => hdot (List.mem_of_getLast? hlast)

theorem trim_display_name {hickory : Hickory} (name : DomainName)
    (h : ∀ label ∈ name.labels, hickory.Verbatim label) :
    Utf8.trimEndMatches (hickory.display name.labels) '.' = name.text := by
  obtain ⟨front,last,hlabels⟩ :=
    (List.eq_nil_or_concat name.labels).resolve_left name.nonempty
  rw [List.concat_eq_append] at hlabels
  have hmem : last ∈ name.labels := by simp [hlabels]
  have hsep := name.separated last hmem
  have htrim := trim_display front (h last hmem) hsep.1 hsep.2
  rw [← hlabels] at htrim
  rw [htrim, map_displayLabel h, text_eq_intercalate]
  rfl

def isPlain (label : Label) : Bool :=
  label.all (fun c => DomainRegex.hostChars.contains c && decide (c.toNat < 128)) &&
    label.head?.any (fun c => DomainRegex.alphanumeric.contains c)

theorem isPlain_iff (label : Label) : isPlain label = true ↔ IsOrdinary label := by
  simp only [isPlain, Bool.and_eq_true, List.all_eq_true, List.contains_iff_mem,
    decide_eq_true_eq, Option.any_eq_true]
  constructor
  · rintro ⟨hall,c,hhead,hc⟩
    exact ⟨⟨⟨c,hc,hhead⟩,fun d hd => (hall d hd).1⟩,fun d hd => (hall d hd).2⟩
  · intro h
    obtain ⟨c,hc,hhead⟩ := h.starts
    exact ⟨fun d hd => ⟨h.chars d hd,h.ascii d hd⟩,c,hhead,hc⟩

def punycodeLabel : Label := "xn--tda".toList

def sampleToUnicode (label : Label) : Option String :=
  if label = punycodeLabel then some "ü" else none

def sampleEscape (label : Label) : String :=
  String.ofList ('\\' :: label.filter fun c => decide (c.toNat < 128))

def sampleDisplay (label : Label) : String :=
  if label = punycodeLabel then "ü"
  else if isPlain label then String.ofList label else sampleEscape label

def sampleFromAscii (text : String) : Option Name :=
  if text.toList.all fun c => decide (c = '.' ∨ c ∈ DomainRegex.hostChars ∧ c.toNat < 128) then
    some (DomainName.zone text)
  else none

def sample : Hickory := ⟨sampleToUnicode, sampleDisplay, isPlain, sampleFromAscii⟩

theorem sampleToUnicode_eq_none {label : Label} :
    sampleToUnicode label = none ↔ label ≠ punycodeLabel := by
  rw [sampleToUnicode]
  split_ifs with h
  · exact iff_of_false (by simp) (fun hne => hne h)
  · exact iff_of_true rfl h

theorem sampleToUnicode_eq_some {label : Label} {text : String}
    (h : sampleToUnicode label = some text) : label = punycodeLabel ∧ text = "ü" := by
  rw [sampleToUnicode] at h
  split_ifs at h with heq
  exact ⟨heq,(Option.some.inj h).symm⟩

theorem sampleDisplay_of_ne {label : Label} (h : label ≠ punycodeLabel) :
    sampleDisplay label = if isPlain label then String.ofList label else sampleEscape label := by
  rw [sampleDisplay, if_neg h]

theorem sample_display {name : Name} (h : ∀ label ∈ name, sample.toUnicode label = none) :
    name.map sample.displayLabel =
      name.map fun label => if isPlain label then String.ofList label else sampleEscape label :=
  List.map_congr_left fun label hl => sampleDisplay_of_ne (sampleToUnicode_eq_none.mp (h label hl))

theorem sample_fromAscii (text : String) : (sample.fromAscii text).isSome = true ↔
    ∀ c ∈ text.toList, c = '.' ∨ c ∈ DomainRegex.hostChars ∧ c.toNat < 128 := by
  change (sampleFromAscii text).isSome = true ↔ _
  rw [sampleFromAscii]
  split_ifs with h
  · exact iff_of_true rfl (Utf8.forall_mem_of_all h)
  · refine iff_of_false (by simp) fun hall => h ?_
    exact List.all_eq_true.mpr fun c hc => decide_eq_true (hall c hc)

theorem sample_fromAsciiSafe {name : Name} (h : ∀ label ∈ name, sample.toUnicode label = none) :
    (sample.fromAscii (Utf8.toAsciiLowercase (sample.display name))).isSome = true ↔
      ∀ label ∈ name, isPlain label = true := by
  rw [sample_fromAscii, display, sample_display h]
  constructor
  · intro hall label hl
    by_contra hplain
    have hmem : '\\' ∈ (Utf8.toAsciiLowercase (".".intercalate (name.map fun label =>
        if isPlain label then String.ofList label else sampleEscape label) ++ ".")).toList := by
      have hpart : (sampleEscape label).toList ∈ (name.map fun label =>
          if isPlain label then String.ofList label else sampleEscape label).map
            String.toList := by
        refine List.mem_map.mpr ⟨_,List.mem_map_of_mem hl,?_⟩
        rw [if_neg hplain]
      have hlower : Char.toLower '\\' = '\\' := by decide
      rw [Utf8.toList_toAsciiLowercase, String.toList_append, String.toList_intercalate, ← hlower]
      exact List.mem_map_of_mem (List.mem_append_left _
        (DomainName.mem_intercalate_of_mem hpart (by simp [sampleEscape])))
    revert hmem
    exact fun hmem => absurd (hall _ hmem) (by decide)
  · intro hall c hc
    rw [Utf8.toList_toAsciiLowercase, String.toList_append, String.toList_intercalate] at hc
    obtain ⟨d,hd,rfl⟩ := List.mem_map.mp hc
    have hdot : d = '.' ∨ d ∈ DomainRegex.hostChars ∧ d.toNat < 128 := by
      rcases List.mem_append.mp hd with hd | hd
      · rcases DomainName.mem_intercalate hd with hsep | ⟨part,hp,hmem⟩
        · exact .inl (List.mem_singleton.mp hsep)
        · obtain ⟨text,ht,rfl⟩ := List.mem_map.mp hp
          obtain ⟨label,hl,rfl⟩ := List.mem_map.mp ht
          rw [if_pos (hall label hl), String.toList_ofList] at hmem
          have hordinary := (isPlain_iff label).mp (hall label hl)
          exact .inr ⟨hordinary.chars d hmem,hordinary.ascii d hmem⟩
      · exact .inl (List.mem_singleton.mp hd)
    rcases hdot with rfl | ⟨hchar,hlt⟩
    · exact .inl DomainRegex.toLower_dot
    · exact .inr ⟨DomainRegex.toLower_hostChars d hchar,DomainRegex.toLower_ascii.mpr hlt⟩

theorem sample_documented : sample.Documented where
  decodesPunycode label text h := by
    rw [(sampleToUnicode_eq_some h).1]
    decide
  displayDecoded label text h := by
    obtain ⟨rfl,rfl⟩ := sampleToUnicode_eq_some h
    exact ⟨rfl,'ü',by decide,by decide⟩
  displayOrdinary label ho h := by
    change sampleDisplay label = _
    rw [sampleDisplay_of_ne (sampleToUnicode_eq_none.mp h), if_pos ((isPlain_iff label).mpr ho)]
  displayAscii label h := by
    change Ascii (sampleDisplay label)
    rw [sampleDisplay_of_ne (sampleToUnicode_eq_none.mp h)]
    split_ifs with hplain
    · intro c hc
      rw [String.toList_ofList] at hc
      exact ((isPlain_iff label).mp hplain).ascii c hc
    · intro c hc
      rw [sampleEscape, String.toList_ofList] at hc
      rcases List.mem_cons.mp hc with rfl | hc
      · decide
      · exact of_decide_eq_true (List.mem_filter.mp hc).2
  ordinarySafe label ho := (isPlain_iff label).mpr ho
  fromAsciiAscii text h := by
    intro c hc
    rcases (sample_fromAscii text).mp h c hc with rfl | ⟨-,hlt⟩
    · decide
    · exact hlt
  fromAsciiSafe name _ h := sample_fromAsciiSafe h

theorem sample_escaping : sample.Escaping where
  toDocumented := sample_documented
  hyphenEscaped label hhead hchars := by
    have hne : label ≠ punycodeLabel := by
      rintro rfl
      revert hhead
      decide
    have hplain : ¬ isPlain label = true := by
      rw [isPlain_iff]
      intro ho
      obtain ⟨c,hc,hstart⟩ := ho.starts
      obtain rfl := Option.some.inj (hhead.symm.trans hstart)
      revert hc
      decide
    have hfilter : label.filter (fun c => decide (c.toNat < 128)) = label :=
      List.filter_eq_self.mpr fun c hc => decide_eq_true (hchars c hc).2
    change sampleDisplay label = _
    rw [sampleDisplay_of_ne hne, if_neg hplain, sampleEscape, hfilter]
    apply String.toList_inj.mp
    simp

end Hickory

namespace DnsHandler

theorem queryDomain_of_undecoded {handler : DnsHandler} (hl : handler.text.Documented)
    (hh : handler.hickory.Documented) (front : Name) {last : Label} (ho : IsOrdinary last)
    (hu : ∀ label ∈ front ++ [last], handler.hickory.toUnicode label = none) :
    handler.queryDomain (front ++ [last]) =
      Utf8.toAsciiLowercase
        (".".intercalate ((front ++ [last]).map handler.hickory.displayLabel)) := by
  have hv := hh.verbatim ho (hu last (by simp))
  rw [queryDomain, Hickory.trim_display front hv ho.separated.1 ho.separated.2]
  refine hl.lowercaseAscii _ (TextLibrary.ascii_intercalate ?_)
  intro part hp
  obtain ⟨label,hlabel,rfl⟩ := List.mem_map.mp hp
  exact hh.displayAscii label (hu label hlabel)

theorem queryDomain_of_decoded {handler : DnsHandler} (hl : handler.text.Documented)
    (hh : handler.hickory.Documented) {name : Name} {label : Label} (hmem : label ∈ name)
    {text : String} (hu : handler.hickory.toUnicode label = some text) :
    ¬ Ascii (handler.queryDomain name) := by
  obtain ⟨hdisplay,c,hc,hunicode,hkelvin⟩ := hh.displayDecoded label text hu
  refine hl.lowercaseUnicode _ ⟨c,?_,hunicode,hkelvin⟩
  refine Utf8.mem_trimEndMatches ?_ ?_
  · have hpart : text.toList ∈ (name.map handler.hickory.displayLabel).map String.toList := by
      rw [← hdisplay]
      exact List.mem_map_of_mem (List.mem_map_of_mem hmem)
    rw [Hickory.display, String.toList_append, String.toList_intercalate]
    exact List.mem_append_left _ (DomainName.mem_intercalate_of_mem hpart hc)
  · rintro rfl
    have hlt : '.'.toNat < 128 := by decide
    omega

def sampleHandler : DnsHandler := ⟨.ascii, .sample, fun _ _ => .failed⟩

end DnsHandler

namespace HostName

def lower (name : HostName) : HostName :=
  .ofLabels (lowerLabels name.labels) (by simpa [lowerLabels] using name.nonempty) (by
    intro label hl
    obtain ⟨part,hp,rfl⟩ := List.mem_map.mp hl
    exact (name.host part hp).lower)

theorem text_lower (name : HostName) : name.lower.text = Utf8.toAsciiLowercase name.text := by
  apply String.toList_inj.mp
  rw [Utf8.toList_toAsciiLowercase, DomainName.text, DomainName.text, String.toList_ofList,
    String.toList_ofList, DomainName.map_intercalate]
  rfl

end HostName

end SideDns
