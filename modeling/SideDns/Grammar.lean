import SideDns.Lowercase

namespace SideDns

open Pattern (oneOrMore)
open RegularExpression (mul_rmatch_iff add_rmatch_iff)
open TextLibrary (Ascii)

def isLabel (label : List Char) : Bool :=
  decide (1 ≤ label.length) && decide (label.length ≤ 63) &&
    label.all (fun c => c.isAlphanum || c == '-') &&
    label.head? != some '-' && label.getLast? != some '-'

def isTopLevel (label : List Char) : Bool :=
  decide (2 ≤ label.length) && decide (label.length ≤ 63) && label.all Char.isAlpha

def isLabelSequence (labels : List (List Char)) : Bool :=
  decide (2 ≤ labels.length) && labels.dropLast.all isLabel && labels.getLast?.any isTopLevel

def inGrammar (domain : String) : Bool :=
  Utf8.toAsciiLowercase domain == "localhost" ||
    isLabelSequence (Utf8.fields ((Utf8.stripPrefix domain "*.").getD domain) '.')

theorem isLabelSequence_iff {labels : List (List Char)} :
    isLabelSequence labels = true ↔
      ∃ front last, labels = front ++ [last] ∧ front ≠ [] ∧
        (∀ label ∈ front, isLabel label = true) ∧ isTopLevel last = true := by
  rcases List.eq_nil_or_concat labels with rfl | ⟨front,last,rfl⟩
  · simp [isLabelSequence]
  · rw [isLabelSequence, List.concat_eq_append, List.dropLast_concat, List.getLast?_concat,
      List.length_append, List.length_singleton, Bool.and_eq_true, Bool.and_eq_true,
      decide_eq_true_eq, List.all_eq_true]
    constructor
    · rintro ⟨⟨hlen,hfront⟩,hlast⟩
      refine ⟨front,last,rfl,?_,hfront,hlast⟩
      rintro rfl
      simp at hlen
    · rintro ⟨front',last',heq,hne,hfront,hlast⟩
      obtain ⟨rfl,hlast'⟩ := List.append_inj' heq rfl
      obtain rfl := List.singleton_inj.mp hlast'
      have hpos := List.length_pos_iff.mpr hne
      exact ⟨⟨by omega,hfront⟩,hlast⟩

namespace DomainRegex

def labelled : RegularExpression Char := oneOrMore labelDot * topLevel

theorem labelled_intercalate {l : List Char} :
    labelled.rmatch l = true ↔
      ∃ front last, l = ['.'].intercalate (front ++ [last]) ∧ front ≠ [] ∧
        (∀ label ∈ front, LabelShape label) ∧ topLevel.rmatch last = true := by
  rw [labelled, mul_rmatch_iff]
  constructor
  · rintro ⟨dots,last,rfl,hdots,hlast⟩
    obtain ⟨parts,hne,rfl,hparts⟩ := Pattern.oneOrMore_rmatch_iff.mp hdots
    obtain ⟨front,hfront,rfl⟩ := labelDots_rmatch hparts
    exact ⟨front,last,(DomainName.intercalate_concat _ _ _).symm,by simpa using hne,hfront,hlast⟩
  · rintro ⟨front,last,rfl,hne,hfront,hlast⟩
    refine ⟨(front.map (fun label => label ++ ['.'])).flatten,last,
      DomainName.intercalate_concat _ _ _,?_,hlast⟩
    refine Pattern.oneOrMore_rmatch_iff.mpr ⟨_,by simpa using hne,rfl,fun part hp => ?_⟩
    obtain ⟨label,hl,rfl⟩ := List.mem_map.mp hp
    exact labelDot_rmatch_iff.mpr ⟨label,hfront label hl,rfl⟩

theorem LabelShape.no_dot {label : List Char} (h : LabelShape label) : '.' ∉ label :=
  fun hdot => dot_not_hostChar (h.chars '.' hdot)

theorem topLevel_no_dot {label : List Char} (h : topLevel.rmatch label = true) : '.' ∉ label := by
  intro hdot
  have hletters := ((Pattern.between_oneOf (by decide)).mp h).2
  exact dot_not_hostChar (mem_hostChars (mem_alphanumeric (hletters '.' hdot)))

theorem labelled_split {l : List Char} :
    labelled.rmatch l = true ↔
      ∃ front last, l.splitOn '.' = front ++ [last] ∧ front ≠ [] ∧
        (∀ label ∈ front, LabelShape label) ∧ topLevel.rmatch last = true := by
  rw [labelled_intercalate]
  constructor
  · rintro ⟨front,last,rfl,hne,hfront,hlast⟩
    refine ⟨front,last,List.splitOn_intercalate '.' ?_ (by simp),hne,hfront,hlast⟩
    intro label hl
    rcases List.mem_append.mp hl with hl | hl
    · exact (hfront label hl).no_dot
    · obtain rfl := List.mem_singleton.mp hl
      exact topLevel_no_dot hlast
  · rintro ⟨front,last,hsplit,hne,hfront,hlast⟩
    refine ⟨front,last,?_,hne,hfront,hlast⟩
    rw [← hsplit, List.intercalate_splitOn]

theorem all_ascii {p : Char → Bool}
    (h : (List.range 128).all (fun n => p (Char.ofNat n)) = true) {c : Char}
    (hc : c.toNat < 128) : p c = true := by
  have hn := List.all_eq_true.mp h c.toNat (List.mem_range.mpr hc)
  rwa [Char.ofNat_toNat] at hn

theorem letters_ascii {c : Char} (hc : c.toNat < 128) : c ∈ letters ↔ c.isAlpha = true := by
  have h := all_ascii (p := fun c => decide (c ∈ letters) == c.isAlpha) (by decide +kernel) hc
  rw [← beq_iff_eq.mp h, decide_eq_true_eq]

theorem digits_ascii {c : Char} (hc : c.toNat < 128) :
    c ∈ "0123456789".toList ↔ c.isDigit = true := by
  have h := all_ascii (p := fun c => decide (c ∈ "0123456789".toList) == c.isDigit)
    (by decide +kernel) hc
  rw [← beq_iff_eq.mp h, decide_eq_true_eq]

theorem alphanumeric_ascii {c : Char} (hc : c.toNat < 128) :
    c ∈ alphanumeric ↔ c.isAlphanum = true := by
  rw [alphanumeric, List.mem_append, letters_ascii hc, digits_ascii hc, Char.isAlphanum,
    Bool.or_eq_true]

theorem hostChars_ascii {c : Char} (hc : c.toNat < 128) :
    c ∈ hostChars ↔ (c.isAlphanum || c == '-') = true := by
  rw [hostChars, List.mem_append, alphanumeric_ascii hc, List.mem_singleton, Bool.or_eq_true,
    beq_iff_eq]

theorem alphanumeric_iff {c : Char} : c ∈ alphanumeric ↔ c ∈ hostChars ∧ c ≠ '-' := by
  have hdash : '-' ∉ alphanumeric := by decide
  rw [hostChars, List.mem_append, List.mem_singleton]
  constructor
  · intro hc
    refine ⟨.inl hc,?_⟩
    rintro rfl
    exact hdash hc
  · rintro ⟨hc | hc,hne⟩
    · exact hc
    · exact absurd hc hne

theorem caseInsensitive_ascii {c : Char} (hc : c.toNat < 128) {d : Char}
    (hd : d ∈ "localhost".toList) : c ∈ caseInsensitive d ↔ c.toLower = d := by
  have h := all_ascii (p := fun c => "localhost".toList.all (fun d =>
    decide (c ∈ caseInsensitive d) == decide (c.toLower = d))) (by decide +kernel) hc
  exact decide_eq_decide.mp (beq_iff_eq.mp (List.all_eq_true.mp h d hd))

theorem labelShape_ascii {label : List Char} (ha : ∀ c ∈ label, c.toNat < 128) :
    LabelShape label ↔ isLabel label = true := by
  simp only [isLabel, Bool.and_eq_true, decide_eq_true_eq, List.all_eq_true, bne_iff_ne]
  constructor
  · intro h
    obtain ⟨c,hc,hhead⟩ := h.starts
    obtain ⟨d,hd,hlast⟩ := h.ends
    have hc' := alphanumeric_iff.mp hc
    have hd' := alphanumeric_iff.mp hd
    refine ⟨⟨⟨⟨?_,h.length⟩,fun e he => (hostChars_ascii (ha e he)).mp (h.chars e he)⟩,?_⟩,?_⟩
    · exact List.length_pos_iff.mpr (List.ne_nil_of_mem (List.mem_of_mem_head? hhead))
    · rw [hhead]
      simpa using hc'.2
    · rw [hlast]
      simpa using hd'.2
  · rintro ⟨⟨⟨⟨hpos,hlen⟩,hchars⟩,hhead⟩,hlast⟩
    have hhost : ∀ c ∈ label, c ∈ hostChars :=
      fun c hc => (hostChars_ascii (ha c hc)).mpr (hchars c hc)
    have hne : label ≠ [] := List.length_pos_iff.mp hpos
    have hedge {c : Char} (hc : c ∈ label) (hdash : c ≠ '-') : c ∈ alphanumeric :=
      alphanumeric_iff.mpr ⟨hhost c hc,hdash⟩
    refine ⟨hlen,hhost,⟨label.head hne,hedge (List.head_mem hne) ?_,List.head?_eq_some_head hne⟩,
      ⟨label.getLast hne,hedge (List.getLast_mem hne) ?_,List.getLast?_eq_some_getLast hne⟩⟩
    · rw [List.head?_eq_some_head hne] at hhead
      simpa using hhead
    · rw [List.getLast?_eq_some_getLast hne] at hlast
      simpa using hlast

theorem topLevel_ascii {label : List Char} (ha : ∀ c ∈ label, c.toNat < 128) :
    topLevel.rmatch label = true ↔ isTopLevel label = true := by
  rw [topLevel, Pattern.between_oneOf (by decide)]
  simp only [isTopLevel, Bool.and_eq_true, decide_eq_true_eq, List.all_eq_true]
  exact and_congr_right fun _ => forall₂_congr fun c hc => letters_ascii (ha c hc)

theorem labelled_ascii {l : List Char} (ha : ∀ c ∈ l, c.toNat < 128) :
    labelled.rmatch l = true ↔ isLabelSequence (l.splitOn '.') = true := by
  have hpart : ∀ label ∈ l.splitOn '.', ∀ c ∈ label, c.toNat < 128 := by
    intro label hl c hc
    have hjoin : ['.'].intercalate (l.splitOn '.') = l := List.intercalate_splitOn '.'
    refine ha c ?_
    rw [← hjoin]
    exact DomainName.mem_intercalate_of_mem hl hc
  rw [labelled_split, isLabelSequence_iff]
  refine exists_congr fun front => exists_congr fun last => and_congr_right fun hsplit => ?_
  rw [hsplit] at hpart
  have hfront : ∀ label ∈ front, LabelShape label ↔ isLabel label = true :=
    fun label hl => labelShape_ascii (hpart label (List.mem_append_left _ hl))
  have hlast := topLevel_ascii (hpart last (by simp))
  rw [hlast, forall₂_congr hfront]

theorem localhost_ascii {l : List Char} (ha : ∀ c ∈ l, c.toNat < 128) :
    localhost.rmatch l = true ↔ l.map Char.toLower = "localhost".toList := by
  rw [localhost, Pattern.sequence_rmatch_iff, List.forall₂_map_right_iff,
    ← List.forall₂_eq_eq_eq, List.forall₂_map_left_iff, List.forall₂_iff_get,
    List.forall₂_iff_get]
  refine and_congr_right fun _ => forall_congr' fun i => ?_
  refine forall_congr' fun hl => forall_congr' fun hd => ?_
  exact caseInsensitive_ascii (ha _ (List.get_mem l ⟨i,hl⟩)) (List.get_mem _ ⟨i,hd⟩)

theorem labelled_no_star {l : List Char} (h : labelled.rmatch l = true) : '*' ∉ l := by
  obtain ⟨front,last,rfl,-,hfront,hlast⟩ := labelled_intercalate.mp h
  have hhost : '*' ∉ hostChars := by decide
  have hletters := ((Pattern.between_oneOf (by decide)).mp hlast).2
  intro hmem
  rcases DomainName.mem_intercalate hmem with hdot | ⟨label,hl,hc⟩
  · exact absurd (List.mem_singleton.mp hdot) (by decide)
  · rcases List.mem_append.mp hl with hl | hl
    · exact hhost ((hfront label hl).chars '*' hc)
    · obtain rfl := List.mem_singleton.mp hl
      exact hhost (mem_hostChars (mem_alphanumeric (hletters '*' hc)))

theorem wildcard_labelled {domain : String} :
    (Pattern.opt wildcard * labelled).rmatch domain.toList = true ↔
      labelled.rmatch ((Utf8.stripPrefix domain "*.").getD domain).toList = true := by
  rw [mul_rmatch_iff]
  constructor
  · rintro ⟨star,rest,hl,hstar,hrest⟩
    rcases wildcard_rmatch hstar with rfl | rfl
    · obtain rfl : domain.toList = rest := hl
      rw [Utf8.stripPrefix_eq_none (by decide) (labelled_no_star hrest), Option.getD_none]
      exact hrest
    · have hdomain : domain = "*." ++ String.ofList rest := by
        apply String.toList_inj.mp
        rw [hl, String.toList_append]
        exact congrArg (['*', '.'] ++ ·) String.toList_ofList.symm
      rw [hdomain, Utf8.stripPrefix_append, Option.getD_some, String.toList_ofList]
      exact hrest
  · intro h
    cases hs : Utf8.stripPrefix domain "*." with
    | none =>
      rw [hs, Option.getD_none] at h
      exact ⟨[],domain.toList,rfl,Pattern.opt_rmatch_iff.mpr (.inr rfl),h⟩
    | some rest =>
      rw [hs, Option.getD_some] at h
      refine ⟨['*', '.'],rest.toList,?_,by decide,h⟩
      rw [Utf8.stripPrefix_eq_some_iff.mp hs, String.toList_append]
      rfl

end DomainRegex

open DomainRegex

theorem validator_accepts_grammar (lib : TextLibrary) (hl : lib.Documented) (domain : String)
    (ha : Ascii domain) (hlen : Utf8.len domain < 253) :
    validateDomain lib domain = true ↔ inGrammar domain = true := by
  have hstripped : ∀ c ∈ ((Utf8.stripPrefix domain "*.").getD domain).toList, c.toNat < 128 := by
    intro c hc
    refine ha c ?_
    cases hs : Utf8.stripPrefix domain "*." with
    | none => rwa [hs, Option.getD_none] at hc
    | some rest =>
      rw [hs, Option.getD_some] at hc
      rw [Utf8.stripPrefix_eq_some_iff.mp hs, String.toList_append]
      exact List.mem_append_right _ hc
  have hlocal : localhost.rmatch domain.toList = true ↔
      Utf8.toAsciiLowercase domain = "localhost" := by
    rw [localhost_ascii ha, ← Utf8.toList_toAsciiLowercase, String.toList_inj]
  have hregex : domainRegex = localhost + Pattern.opt wildcard * labelled := rfl
  rw [validateDomain, hl.isMatch, decide_eq_true hlen, Bool.true_and, hregex, add_rmatch_iff,
    hlocal, wildcard_labelled, labelled_ascii hstripped, inGrammar, Bool.or_eq_true, beq_iff_eq]
  rfl

theorem digit_label_in_grammar :
    validateDomain TextLibrary.unicode "*.a-1.3d.test" = true ↔
      inGrammar "*.a-1.3d.test" = true :=
  validator_accepts_grammar TextLibrary.unicode TextLibrary.unicode_unicode.toDocumented
    "*.a-1.3d.test" (TextLibrary.ascii_of_all (by decide)) (by decide)

example : inGrammar "*.a-1.3d.test" = true := by decide

example : inGrammar "a.b2" = false := by decide

end SideDns
