import SideDns.Library.DomainName
import SideDns.Library.Pattern
import SideDns.Rule

namespace SideDns

open Pattern (oneOf sequence opt oneOrMore upTo between)
open RegularExpression (mul_rmatch_iff add_rmatch_iff)

inductive IpAddr where
  | v4 (ip : BitVec 32)
  | v6 (ip : BitVec 128)
  deriving DecidableEq, Repr

def SocketAddr.ip : SocketAddr → IpAddr
  | v4 ip _ => .v4 ip
  | v6 ip _ _ _ => .v6 ip

def dnsRecordTtlSeconds : Nat := 10

def dnsListenIp : BitVec 32 := 0x7f003535

def dnsListenAddr : SocketAddr := .v4 dnsListenIp 53

def proxyListenAddr : SocketAddr := .v4 0x7f00002a 80

namespace DomainRegex

def caseInsensitive (c : Char) : List Char :=
  match c with
  | 's' => ['s', 'S', 'ſ']
  | 'k' => ['k', 'K', '\u212a']
  | c => [c, c.toUpper]

def letters : List Char := "abcdefghijklmnopqrstuvwxyz".toList.flatMap caseInsensitive

def alphanumeric : List Char := letters ++ "0123456789".toList

def hostChars : List Char := alphanumeric ++ ['-']

def localhost : RegularExpression Char := sequence ("localhost".toList.map caseInsensitive)

def wildcard : RegularExpression Char := sequence [['*'], ['.']]

def labelDot : RegularExpression Char :=
  oneOf alphanumeric * (opt (upTo (oneOf hostChars) 61 * oneOf alphanumeric) * oneOf ['.'])

def topLevel : RegularExpression Char := between (oneOf letters) 2 63

end DomainRegex

open DomainRegex

def domainRegex : RegularExpression Char :=
  localhost + opt wildcard * (oneOrMore labelDot * topLevel)

structure IsHostLabel (label : List Char) : Prop where
  starts : ∃ c ∈ alphanumeric, label.head? = some c
  chars : ∀ c ∈ label, c ∈ hostChars

namespace DomainRegex

theorem mem_hostChars {c : Char} (h : c ∈ alphanumeric) : c ∈ hostChars :=
  List.mem_append_left _ h

theorem mem_alphanumeric {c : Char} (h : c ∈ letters) : c ∈ alphanumeric :=
  List.mem_append_left _ h

theorem dot_not_hostChar : '.' ∉ hostChars := by decide

theorem isHostLabel_cons {c : Char} {rest : List Char} (hc : c ∈ alphanumeric)
    (hrest : ∀ d ∈ rest, d ∈ hostChars) : IsHostLabel (c :: rest) :=
  ⟨⟨c,hc,rfl⟩,List.forall_mem_cons.mpr ⟨mem_hostChars hc,hrest⟩⟩

theorem isHostLabel_of_letters {label : List Char} (hne : label ≠ [])
    (h : ∀ c ∈ label, c ∈ letters) : IsHostLabel label := by
  obtain ⟨c,rest,rfl⟩ := List.exists_cons_of_ne_nil hne
  obtain ⟨hc,hrest⟩ := List.forall_mem_cons.mp h
  exact isHostLabel_cons (mem_alphanumeric hc) fun d hd =>
    mem_hostChars (mem_alphanumeric (hrest d hd))

theorem separated {label : List Char} (h : IsHostLabel label) : label ≠ [] ∧ '.' ∉ label := by
  refine ⟨?_,fun hdot => dot_not_hostChar (h.chars '.' hdot)⟩
  rintro rfl
  obtain ⟨c,-,hc⟩ := h.starts
  cases hc

theorem localhost_rmatch {l : List Char} (h : localhost.rmatch l = true) : IsHostLabel l := by
  have hl := Pattern.sequence_rmatch_iff.mp h
  have hall : ∀ cs ∈ "localhost".toList.map caseInsensitive,
      cs.all (fun c => decide (c ∈ letters)) = true := by
    decide
  have hletters : ∀ cs ∈ "localhost".toList.map caseInsensitive, ∀ c ∈ cs, c ∈ letters :=
    fun cs hcs => Utf8.forall_mem_of_all (hall cs hcs)
  refine isHostLabel_of_letters ?_ ?_
  · rintro rfl
    cases hl
  · intro c hc
    obtain ⟨i,hi,rfl⟩ := List.mem_iff_getElem.mp hc
    have hlen := hl.length_eq
    have hget := List.forall₂_iff_get.mp hl
    exact hletters _ (List.getElem_mem (by omega)) _ (hget.2 i hi (by omega))

structure LabelShape (label : List Char) : Prop where
  length : label.length ≤ 63
  chars : ∀ c ∈ label, c ∈ hostChars
  starts : ∃ c ∈ alphanumeric, label.head? = some c
  ends : ∃ c ∈ alphanumeric, label.getLast? = some c

theorem labelShape_cons {c : Char} {mid : List Char} (hc : c ∈ alphanumeric)
    (hmid : mid = [] ∨ ∃ inner e, mid = inner ++ [e] ∧ inner.length ≤ 61 ∧
      (∀ d ∈ inner, d ∈ hostChars) ∧ e ∈ alphanumeric) : LabelShape (c :: mid) := by
  rcases hmid with rfl | ⟨inner,e,rfl,hlen,hinner,he⟩
  · refine ⟨by simp,?_,⟨c,hc,rfl⟩,⟨c,hc,rfl⟩⟩
    intro d hd
    obtain rfl := List.mem_singleton.mp hd
    exact mem_hostChars hc
  · refine ⟨?_,?_,⟨c,hc,rfl⟩,⟨e,he,?_⟩⟩
    · simp only [List.length_cons, List.length_append, List.length_nil]
      omega
    · refine List.forall_mem_cons.mpr ⟨mem_hostChars hc,?_⟩
      intro d hd
      rcases List.mem_append.mp hd with hd | hd
      · exact hinner d hd
      · obtain rfl := List.mem_singleton.mp hd
        exact mem_hostChars he
    · rw [← List.cons_append, List.getLast?_concat]

theorem LabelShape.split {label : List Char} (h : LabelShape label) :
    ∃ c mid, label = c :: mid ∧ c ∈ alphanumeric ∧
      (mid = [] ∨ ∃ inner e, mid = inner ++ [e] ∧ inner.length ≤ 61 ∧
        (∀ d ∈ inner, d ∈ hostChars) ∧ e ∈ alphanumeric) := by
  obtain ⟨c,hc,hhead⟩ := h.starts
  obtain ⟨mid,rfl⟩ := List.head?_eq_some_iff.mp hhead
  refine ⟨c,mid,rfl,hc,?_⟩
  rcases List.eq_nil_or_concat mid with rfl | ⟨inner,e,rfl⟩
  · exact .inl rfl
  · right
    rw [List.concat_eq_append] at h ⊢
    obtain ⟨e',he',hlast⟩ := h.ends
    rw [← List.cons_append, List.getLast?_concat, Option.some.injEq] at hlast
    have hlen := h.length
    simp only [List.length_cons, List.length_append, List.length_nil] at hlen
    exact ⟨inner,e,rfl,by omega,fun d hd => h.chars d (by simp [hd]),hlast ▸ he'⟩

theorem labelDot_rmatch_iff {l : List Char} :
    labelDot.rmatch l = true ↔ ∃ label, LabelShape label ∧ l = label ++ ['.'] := by
  rw [labelDot, Pattern.oneOf_mul_rmatch_iff]
  constructor
  · rintro ⟨c,hc,rest,rfl,hrest⟩
    obtain ⟨mid,dot,rfl,hmid,hdot⟩ := (mul_rmatch_iff _ _ _).mp hrest
    obtain ⟨d,hd,rfl⟩ := Pattern.oneOf_rmatch_iff.mp hdot
    obtain rfl := List.mem_singleton.mp hd
    refine ⟨c :: mid,labelShape_cons hc ?_,rfl⟩
    rcases Pattern.opt_rmatch_iff.mp hmid with hmid | rfl
    · obtain ⟨inner,last,rfl,hinner,hlast⟩ := (mul_rmatch_iff _ _ _).mp hmid
      obtain ⟨e,he,rfl⟩ := Pattern.oneOf_rmatch_iff.mp hlast
      obtain ⟨hlen,hchars⟩ := Pattern.upTo_oneOf.mp hinner
      exact .inr ⟨inner,e,rfl,hlen,hchars,he⟩
    · exact .inl rfl
  · rintro ⟨label,hlabel,rfl⟩
    obtain ⟨c,mid,rfl,hc,hmid⟩ := hlabel.split
    refine ⟨c,hc,mid ++ ['.'],rfl,(mul_rmatch_iff _ _ _).mpr ⟨mid,['.'],rfl,?_,?_⟩⟩
    · rw [Pattern.opt_rmatch_iff]
      rcases hmid with rfl | ⟨inner,e,rfl,hlen,hchars,he⟩
      · exact .inr rfl
      · left
        exact (mul_rmatch_iff _ _ _).mpr
          ⟨inner,[e],rfl,Pattern.upTo_oneOf.mpr ⟨hlen,hchars⟩,
            Pattern.oneOf_rmatch_iff.mpr ⟨e,he,rfl⟩⟩
    · exact Pattern.oneOf_rmatch_iff.mpr ⟨'.',by simp,rfl⟩

theorem LabelShape.isHostLabel {label : List Char} (h : LabelShape label) : IsHostLabel label :=
  ⟨h.starts,h.chars⟩

theorem labelDots_rmatch {parts : List (List Char)}
    (h : ∀ part ∈ parts, labelDot.rmatch part = true) :
    ∃ labels : List (List Char), (∀ label ∈ labels, LabelShape label) ∧
      parts = labels.map (fun label => label ++ ['.']) := by
  induction parts with
  | nil => exact ⟨[],by simp,rfl⟩
  | cons part parts ih =>
    obtain ⟨hpart,hparts⟩ := List.forall_mem_cons.mp h
    obtain ⟨label,hlabel,rfl⟩ := labelDot_rmatch_iff.mp hpart
    obtain ⟨labels,hlabels,rfl⟩ := ih hparts
    exact ⟨label :: labels,List.forall_mem_cons.mpr ⟨hlabel,hlabels⟩,rfl⟩

theorem wildcard_rmatch {l : List Char} (h : (opt wildcard).rmatch l = true) :
    l = [] ∨ l = ['*', '.'] := by
  rcases Pattern.opt_rmatch_iff.mp h with h | rfl
  · rcases Pattern.sequence_rmatch_iff.mp h with _ | ⟨ha,_ | ⟨hb,_ | _⟩⟩
    obtain rfl := List.mem_singleton.mp ha
    obtain rfl := List.mem_singleton.mp hb
    exact .inr rfl
  · exact .inl rfl

end DomainRegex

structure HostName extends DomainName where
  host : ∀ label ∈ labels, IsHostLabel label

def HostName.ofLabels (labels : List (List Char)) (hne : labels ≠ [])
    (host : ∀ label ∈ labels, IsHostLabel label) : HostName :=
  ⟨⟨labels,hne,fun label hl => DomainRegex.separated (host label hl)⟩,host⟩

theorem domainRegex_rmatch {l : List Char} (h : domainRegex.rmatch l = true) :
    ∃ name : HostName, l = name.text.toList ∨ l = '*' :: '.' :: name.text.toList := by
  rcases (add_rmatch_iff _ _ _).mp h with h | h
  · have hhost := DomainRegex.localhost_rmatch h
    refine ⟨.ofLabels [l] (by simp) (by simpa using hhost),.inl ?_⟩
    rw [DomainName.text, String.toList_ofList]
    exact List.intercalate_singleton.symm
  · obtain ⟨star,rest,rfl,hstar,hrest⟩ := (mul_rmatch_iff _ _ _).mp h
    obtain ⟨dots,last,rfl,hdots,hlast⟩ := (mul_rmatch_iff _ _ _).mp hrest
    obtain ⟨parts,hne,rfl,hparts⟩ := Pattern.oneOrMore_rmatch_iff.mp hdots
    obtain ⟨labels,hlabels,rfl⟩ := DomainRegex.labelDots_rmatch hparts
    obtain ⟨⟨hlen,-⟩,hletters⟩ := (Pattern.between_oneOf (by decide)).mp hlast
    have hlastLabel : IsHostLabel last := by
      refine DomainRegex.isHostLabel_of_letters ?_ hletters
      rintro rfl
      cases hlen
    have htext : (labels.map (fun label => label ++ ['.'])).flatten ++ last =
        (String.ofList (['.'].intercalate (labels ++ [last]))).toList := by
      rw [String.toList_ofList, DomainName.intercalate_concat]
    refine ⟨.ofLabels (labels ++ [last]) (by simp) ?_,?_⟩
    · intro label hl
      rcases List.mem_append.mp hl with hl | hl
      · exact (hlabels label hl).isHostLabel
      · obtain rfl := List.mem_singleton.mp hl
        exact hlastLabel
    · rw [htext]
      rcases DomainRegex.wildcard_rmatch hstar with rfl | rfl
      · exact .inl rfl
      · exact .inr rfl

end SideDns
