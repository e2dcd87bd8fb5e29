import SideDns.Library.Numeral

namespace IpText

open Numeral (Ends ends_cons isDigit span value)

def decimal (n : Nat) : List Char := Nat.toDigits 10 n

def hexadecimal (n : Nat) : List Char := Nat.toDigits 16 n

def ipv4Mapped : List Nat → Option (List Nat)
  | [0, 0, 0, 0, 0, 65535, high, low] => some [high / 256, high % 256, low / 256, low % 256]
  | _ => none

structure Span where
  start : Nat
  len : Nat
  deriving DecidableEq, Repr

def Span.extend (current : Span) (i : Nat) : Span :=
  ⟨if current.len = 0 then i else current.start, current.len + 1⟩

def Span.longer (longest current : Span) : Span :=
  if longest.len < current.len then current else longest

def longestZeroes : List Nat → Nat → Span → Span → Span
  | [], _, longest, _ => longest
  | segment :: rest, i, longest, current =>
    if segment = 0 then
      longestZeroes rest (i + 1) (longest.longer (current.extend i)) (current.extend i)
    else longestZeroes rest (i + 1) longest ⟨0, 0⟩

def fmtOctets : List Nat → List Char
  | [] => []
  | first :: tail => decimal first ++ tail.flatMap (fun octet => '.' :: decimal octet)

def fmtSubslice : List Nat → List Char
  | [] => []
  | first :: tail => hexadecimal first ++ tail.flatMap (fun segment => ':' :: hexadecimal segment)

def fmtSegments (segments : List Nat) : List Char :=
  match ipv4Mapped segments with
  | some octets => [':', ':', 'f', 'f', 'f', 'f', ':'] ++ fmtOctets octets
  | none =>
    let zeroes := longestZeroes segments 0 ⟨0, 0⟩ ⟨0, 0⟩
    if 1 < zeroes.len then
      fmtSubslice (segments.take zeroes.start) ++ (':' :: ':' ::
        fmtSubslice (segments.drop (zeroes.start + zeroes.len)))
    else fmtSubslice segments

def readGivenChar (c : Char) : List Char → Option (List Char)
  | [] => none
  | d :: rest => if d = c then some rest else none

def readNumber (radix : Nat) (maxDigits : Option Nat) (allowZeroPrefix : Bool) (bound : Nat)
    (text : List Char) : Option (Nat × List Char) :=
  let digits := span radix text
  if digits.1 = [] then none
  else if maxDigits.any (fun n => n < digits.1.length) then none
  else if allowZeroPrefix = false ∧ digits.1.head? = some '0' ∧ 1 < digits.1.length then none
  else if value radix digits.1 < bound then some (value radix digits.1, digits.2)
  else none

def readSeparator {α : Type} (sep : Char) (first : Bool) (inner : List Char → Option α)
    (text : List Char) : Option α :=
  if first then inner text else (readGivenChar sep text).bind inner

def readOctets : Nat → Bool → List Char → Option (List Nat × List Char)
  | 0, _, text => some ([], text)
  | count + 1, first, text =>
      (readSeparator '.' first (readNumber 10 (some 3) false 256) text).bind fun octet =>
        (readOctets count false octet.2).map fun p => (octet.1 :: p.1, p.2)

def readIpv4Addr (text : List Char) : Option (List Nat × List Char) := readOctets 4 true text

def pairs : List Nat → List Nat
  | high :: low :: rest => (high * 256 + low) :: pairs rest
  | _ => []

structure Groups where
  groups : List Nat
  ipv4 : Bool
  rest : List Char
  deriving DecidableEq, Repr

def readGroups : Nat → Bool → List Char → Groups
  | 0, _, text => ⟨[], false, text⟩
  | slots + 1, first, text =>
    match (if 0 < slots then readSeparator ':' first readIpv4Addr text else none) with
    | some (octets, rest) => ⟨pairs octets, true, rest⟩
    | none =>
      match readSeparator ':' first (readNumber 16 (some 4) true 65536) text with
      | some (group, rest) =>
        let more := readGroups slots false rest
        ⟨group :: more.groups, more.ipv4, more.rest⟩
      | none => ⟨[], false, text⟩

def readSegments (text : List Char) : Option (List Nat × List Char) :=
  let head := readGroups 8 true text
  if head.groups.length = 8 then some (head.groups, head.rest)
  else if head.ipv4 then none
  else
    (readGivenChar ':' head.rest).bind fun rest =>
      (readGivenChar ':' rest).map fun rest =>
        let tail := readGroups (8 - (head.groups.length + 1)) true rest
        let zeroes := List.replicate (8 - tail.groups.length - head.groups.length) 0
        (head.groups ++ zeroes ++ tail.groups, tail.rest)

def readPort (text : List Char) : Option (Nat × List Char) :=
  (readGivenChar ':' text).bind (readNumber 10 none true (2 ^ 16))

def readScopeId (text : List Char) : Option (Nat × List Char) :=
  (readGivenChar '%' text).bind (readNumber 10 none true (2 ^ 32))

theorem readGivenChar_cons (c : Char) (text : List Char) :
    readGivenChar c (c :: text) = some text :=
  if_pos rfl

theorem readGivenChar_ne {c d : Char} (text : List Char) (h : d ≠ c) :
    readGivenChar c (d :: text) = none :=
  if_neg h

theorem readNumber_toDigits {radix n bound : Nat} {maxDigits : Option Nat} (zero : Bool)
    {text : List Char} (hb : 1 < radix) (hr : radix ≤ 16)
    (hlen : ∀ m ∈ maxDigits, (Nat.toDigits radix n).length ≤ m) (hn : n < bound)
    (h : Ends radix text) :
    readNumber radix maxDigits zero bound (Nat.toDigits radix n ++ text) = some (n, text) := by
  have hspan := Numeral.span_toDigits (n := n) hb hr h
  have hshort : ¬maxDigits.any (fun m => m < (Nat.toDigits radix n).length) = true := by
    rw [Option.any_eq_true_iff_get]
    rintro ⟨hsome,hlt⟩
    have hle := hlen _ (Option.get_mem hsome)
    have hlt' := of_decide_eq_true hlt
    omega
  have hzero : ¬(zero = false ∧ (Nat.toDigits radix n).head? = some '0' ∧
      1 < (Nat.toDigits radix n).length) := by
    rintro ⟨-,hhead,hlong⟩
    rw [Numeral.toDigits_head_zero hb hr hhead] at hlong
    exact absurd hlong (by decide)
  rw [readNumber, hspan]
  simp only
  rw [if_neg Nat.toDigits_ne_nil, if_neg hshort, if_neg hzero, Numeral.value_toDigits hb hr,
    if_pos hn]

theorem readNumber_none {radix bound : Nat} (maxDigits : Option Nat) (zero : Bool)
    {text : List Char} (h : Ends radix text) :
    readNumber radix maxDigits zero bound text = none := by
  have hspan : span radix ([] ++ text) = ([], text) := Numeral.span_append (by simp) h
  rw [List.nil_append] at hspan
  rw [readNumber, hspan]
  exact if_pos rfl

theorem readNumber_decimal {n bound : Nat} {text : List Char} (hn : n < bound)
    (ht : Ends 10 text) : readNumber 10 none true bound (decimal n ++ text) = some (n, text) :=
  readNumber_toDigits true (by decide) (by decide) nofun hn ht

theorem readOctet_decimal {octet : Nat} (zero : Bool) {text : List Char} (h : octet < 256)
    (ht : Ends 10 text) :
    readNumber 10 (some 3) zero 256 (decimal octet ++ text) = some (octet, text) := by
  refine readNumber_toDigits zero (by decide) (by decide) ?_ h ht
  intro m hm
  obtain rfl := Option.some.inj hm
  exact (Nat.length_toDigits_le_iff (by decide) (by decide)).mpr (by omega)

theorem readGroup_hexadecimal {group : Nat} {text : List Char} (h : group < 65536)
    (ht : Ends 16 text) :
    readNumber 16 (some 4) true 65536 (hexadecimal group ++ text) = some (group, text) := by
  refine readNumber_toDigits true (by decide) (by decide) ?_ h ht
  intro m hm
  obtain rfl := Option.some.inj hm
  exact (Nat.length_toDigits_le_iff (by decide) (by decide)).mpr (by omega)

theorem readOctets_tail {octets : List Nat} {text : List Char} (h : ∀ octet ∈ octets, octet < 256)
    (ht : Ends 10 text) :
    readOctets octets.length false
      (octets.flatMap (fun octet => '.' :: decimal octet) ++ text) = some (octets, text) := by
  induction octets with
  | nil => rfl
  | cons octet rest ih =>
    obtain ⟨hoctet,hrest⟩ := List.forall_mem_cons.mp h
    have hends : Ends 10 (rest.flatMap (fun octet => '.' :: decimal octet) ++ text) := by
      cases rest with
      | nil => exact ht
      | cons next rest => exact ends_cons _ (by decide)
    rw [List.flatMap_cons, List.append_assoc, List.length_cons, readOctets, readSeparator,
      if_neg Bool.false_ne_true, List.cons_append, readGivenChar_cons, Option.bind_some,
      readOctet_decimal false hoctet hends, Option.bind_some, ih hrest]
    rfl

theorem readIpv4Addr_fmtOctets {octets : List Nat} {text : List Char} (hlen : octets.length = 4)
    (h : ∀ octet ∈ octets, octet < 256) (ht : Ends 10 text) :
    readIpv4Addr (fmtOctets octets ++ text) = some (octets, text) := by
  obtain ⟨first,tail,rfl⟩ := List.exists_cons_of_length_eq_add_one hlen
  obtain ⟨hfirst,htail⟩ := List.forall_mem_cons.mp h
  have hcount : tail.length = 3 := by simpa using hlen
  have hends : Ends 10 (tail.flatMap (fun octet => '.' :: decimal octet) ++ text) := by
    cases tail with
    | nil => exact ht
    | cons next tail => exact ends_cons _ (by decide)
  have hread := readOctets_tail htail ht
  rw [hcount] at hread
  rw [readIpv4Addr, fmtOctets, List.append_assoc, readOctets, readSeparator, if_pos rfl,
    readOctet_decimal false hfirst hends, Option.bind_some, hread]
  rfl

theorem readIpv4Addr_none {text : List Char} (h : ∀ rest, (span 10 text).2 ≠ '.' :: rest) :
    readIpv4Addr text = none := by
  rw [readIpv4Addr, readOctets, readSeparator, if_pos rfl]
  cases hread : readNumber 10 (some 3) false 256 text with
  | none => rfl
  | some octet =>
    have hrest : octet.2 = (span 10 text).2 := by
      simp only [readNumber] at hread
      split_ifs at hread
      exact (congrArg Prod.snd (Option.some.inj hread)).symm
    rw [Option.bind_some, readOctets, readSeparator, if_neg Bool.false_ne_true, hrest]
    cases hspan : (span 10 text).2 with
    | nil => rfl
    | cons c rest =>
      have hc : c ≠ '.' := by
        rintro rfl
        exact h rest hspan
      rw [readGivenChar_ne rest hc]
      rfl

structure Stops (text : List Char) : Prop where
  hex : Ends 16 text
  dot : ∀ rest, text ≠ '.' :: rest
  colon : ∀ rest, text = ':' :: rest → ∃ more, rest = ':' :: more

theorem hexadecimal_char {n : Nat} {c : Char} (h : c ∈ hexadecimal n) : c ≠ '.' := by
  have hall : ∀ d < 16, Nat.digitChar d ≠ '.' := by decide
  obtain ⟨d,hd,rfl⟩ := Numeral.mem_toDigits (by decide) h
  exact hall d hd

theorem isDigit_of_hex {c : Char} (h : isDigit 16 c = false) : isDigit 10 c = false := by
  rw [isDigit] at h ⊢
  cases hv : Numeral.digitValue c with
  | none => rfl
  | some d =>
    rw [hv] at h
    have hd : ¬d < 16 := of_decide_eq_false h
    exact decide_eq_false (by omega)

theorem ends_decimal {text : List Char} (h : Ends 16 text) : Ends 10 text :=
  fun c hc => isDigit_of_hex (h c hc)

theorem span_no_dot {word text : List Char} (hword : ∀ c ∈ word, c ≠ '.') (hends : Ends 10 text)
    (hdot : ∀ rest, text ≠ '.' :: rest) (rest : List Char) :
    (span 10 (word ++ text)).2 ≠ '.' :: rest := by
  induction word with
  | nil =>
    have hspan : span 10 ([] ++ text) = ([], text) := Numeral.span_append (by simp) hends
    rw [hspan]
    exact hdot rest
  | cons c word ih =>
    obtain ⟨hc,hrest⟩ := List.forall_mem_cons.mp hword
    have hspan : (span 10 (c :: word ++ text)).2 =
        if isDigit 10 c then (span 10 (word ++ text)).2 else c :: (word ++ text) := by
      exact List.dropWhile_cons
    rw [hspan]
    split_ifs
    · exact ih hrest
    · exact fun heq => hc (List.cons.inj heq).1

theorem readIpv4Addr_hexadecimal (group : Nat) {text : List Char} (hends : Ends 16 text)
    (hdot : ∀ rest, text ≠ '.' :: rest) : readIpv4Addr (hexadecimal group ++ text) = none :=
  readIpv4Addr_none (span_no_dot (fun _ hc => hexadecimal_char hc) (ends_decimal hends) hdot)

theorem readIpv4Addr_ends {text : List Char} (hends : Ends 10 text)
    (hdot : ∀ rest, text ≠ '.' :: rest) : readIpv4Addr text = none := by
  refine readIpv4Addr_none fun rest => ?_
  rw [← List.nil_append text]
  exact span_no_dot (by simp) hends hdot rest

theorem readSeparator_stops {α : Type} {inner : List Char → Option α} {text : List Char}
    (first : Bool) (hstops : Stops text) (hself : inner text = none)
    (hcolon : ∀ more, inner (':' :: more) = none) :
    readSeparator ':' first inner text = none := by
  cases first with
  | true => exact hself
  | false =>
    rw [readSeparator, if_neg Bool.false_ne_true]
    cases text with
    | nil => rfl
    | cons c rest =>
      by_cases hc : c = ':'
      · subst hc
        obtain ⟨more,rfl⟩ := hstops.colon rest rfl
        rw [readGivenChar_cons, Option.bind_some, hcolon]
      · rw [readGivenChar_ne rest hc]
        rfl

theorem readGroups_stops (slots : Nat) (first : Bool) {text : List Char} (h : Stops text) :
    readGroups slots first text = ⟨[], false, text⟩ := by
  cases slots with
  | zero => rfl
  | succ slots =>
    have hcolon (more : List Char) : Ends 16 (':' :: more) := ends_cons more (by decide)
    have hipv4 : readSeparator ':' first readIpv4Addr text = none :=
      readSeparator_stops first h (readIpv4Addr_ends (ends_decimal h.hex) h.dot) fun more =>
        readIpv4Addr_ends (ends_decimal (hcolon more)) (by simp)
    have hgroup : readSeparator ':' first (readNumber 16 (some 4) true 65536) text = none :=
      readSeparator_stops first h (readNumber_none _ _ h.hex) fun more =>
        readNumber_none _ _ (hcolon more)
    rw [readGroups, hipv4, hgroup, ite_self]

theorem readGroups_group (slots : Nat) {group : Nat} (first : Bool) {text : List Char}
    (hgroup : group < 65536) (hends : Ends 16 text) (hdot : ∀ rest, text ≠ '.' :: rest) :
    readGroups (slots + 1) first
        ((if first then [] else [':']) ++ (hexadecimal group ++ text)) =
      ⟨group :: (readGroups slots false text).groups, (readGroups slots false text).ipv4,
        (readGroups slots false text).rest⟩ := by
  have hread {α : Type} (inner : List Char → Option α) :
      readSeparator ':' first inner
        ((if first then [] else [':']) ++ (hexadecimal group ++ text)) =
        inner (hexadecimal group ++ text) := by
    cases first <;> rfl
  rw [readGroups, hread, hread, readIpv4Addr_hexadecimal group hends hdot,
    readGroup_hexadecimal hgroup hends, ite_self]

def colonSegments (segments : List Nat) : List Char :=
  segments.flatMap fun segment => ':' :: hexadecimal segment

theorem colonSegments_boundary (segments : List Nat) {text : List Char} (h : Stops text) :
    Ends 16 (colonSegments segments ++ text) ∧
      ∀ rest, colonSegments segments ++ text ≠ '.' :: rest := by
  cases segments with
  | nil => exact ⟨h.hex,h.dot⟩
  | cons segment segments =>
    refine ⟨ends_cons _ (by decide),?_⟩
    intro rest heq
    exact absurd (List.cons.inj heq).1 (by decide)

theorem readGroups_next {slots : Nat} (first : Bool) {segment : Nat} {segments : List Nat}
    {text : List Char} (hsegment : segment < 65536) (hstops : Stops text)
    (hrest : readGroups slots false (colonSegments segments ++ text) = ⟨segments, false, text⟩) :
    readGroups (slots + 1) first ((if first then [] else [':']) ++
      (hexadecimal segment ++ (colonSegments segments ++ text))) =
        ⟨segment :: segments, false, text⟩ := by
  obtain ⟨hends,hdot⟩ := colonSegments_boundary segments hstops
  rw [readGroups_group slots first hsegment hends hdot, hrest]

theorem readGroups_colonSegments {slots : Nat} {segments : List Nat} {text : List Char}
    (hlen : segments.length ≤ slots) (h : ∀ segment ∈ segments, segment < 65536)
    (hstops : Stops text) :
    readGroups slots false (colonSegments segments ++ text) = ⟨segments, false, text⟩ := by
  induction segments generalizing slots with
  | nil => exact readGroups_stops slots false hstops
  | cons segment segments ih =>
    obtain ⟨hsegment,hrest⟩ := List.forall_mem_cons.mp h
    cases slots with
    | zero => cases hlen
    | succ slots =>
      have hread := readGroups_next false hsegment hstops (ih (Nat.le_of_succ_le_succ hlen) hrest)
      rw [colonSegments, List.flatMap_cons, List.append_assoc]
      exact hread

theorem readGroups_fmtSubslice {slots : Nat} {segments : List Nat} {text : List Char}
    (hlen : segments.length ≤ slots) (h : ∀ segment ∈ segments, segment < 65536)
    (hstops : Stops text) :
    readGroups slots true (fmtSubslice segments ++ text) = ⟨segments, false, text⟩ := by
  cases segments with
  | nil => exact readGroups_stops slots true hstops
  | cons segment segments =>
    obtain ⟨hsegment,hrest⟩ := List.forall_mem_cons.mp h
    cases slots with
    | zero => cases hlen
    | succ slots =>
      have hread := readGroups_next true hsegment hstops
        (readGroups_colonSegments (Nat.le_of_succ_le_succ hlen) hrest hstops)
      rw [fmtSubslice, List.append_assoc]
      exact hread

structure IsZeroSpan (segments : List Nat) (s : Span) : Prop where
  bound : s.start + s.len ≤ segments.length
  zeroes : (segments.drop s.start).take s.len = List.replicate s.len 0

theorem isZeroSpan_empty (segments : List Nat) : IsZeroSpan segments ⟨0, 0⟩ :=
  ⟨Nat.zero_le _,rfl⟩

theorem Span.extend_end {s : Span} {i : Nat} (hi : s.len = 0 ∨ s.start + s.len = i) :
    (s.extend i).start + (s.extend i).len = i + 1 := by
  simp only [Span.extend]
  split_ifs with hempty
  · omega
  · omega

theorem isZeroSpan_extend {segments : List Nat} {s : Span} {i : Nat} (h : IsZeroSpan segments s)
    (hi : s.len = 0 ∨ s.start + s.len = i) (hat : segments[i]? = some 0) :
    IsZeroSpan segments (s.extend i) := by
  obtain ⟨hlt,hzero⟩ := List.getElem?_eq_some_iff.mp hat
  refine ⟨by rw [Span.extend_end hi]; exact hlt,?_⟩
  simp only [Span.extend]
  split_ifs with hempty
  · rw [List.drop_eq_getElem_cons hlt, hzero, hempty]
    rfl
  · have hnext : s.start + s.len = i := hi.resolve_left hempty
    rw [List.take_add_one, h.zeroes, List.getElem?_drop, hnext, hat, List.replicate_succ']
    rfl

theorem isZeroSpan_longer {segments : List Nat} {longest current : Span}
    (hlongest : IsZeroSpan segments longest) (hcurrent : IsZeroSpan segments current) :
    IsZeroSpan segments (longest.longer current) := by
  rw [Span.longer]
  split_ifs
  · exact hcurrent
  · exact hlongest

theorem longestZeroes_isZeroSpan {segments rest : List Nat} {i : Nat} {longest current : Span}
    (hrest : segments.drop i = rest) (hlongest : IsZeroSpan segments longest)
    (hcurrent : IsZeroSpan segments current)
    (hi : current.len = 0 ∨ current.start + current.len = i) :
    IsZeroSpan segments (longestZeroes rest i longest current) := by
  induction rest generalizing i longest current with
  | nil => exact hlongest
  | cons segment rest ih =>
    have hat : segments[i]? = some segment := by
      have hhead := congrArg List.head? hrest
      rwa [List.head?_drop] at hhead
    have hnext : segments.drop (i + 1) = rest := by
      rw [← List.drop_drop, hrest]
      rfl
    rw [longestZeroes]
    split_ifs with hzero
    · subst hzero
      have hextend := isZeroSpan_extend hcurrent hi hat
      exact ih hnext (isZeroSpan_longer hlongest hextend) hextend (Or.inr (Span.extend_end hi))
    · exact ih hnext hlongest (isZeroSpan_empty segments) (Or.inl rfl)

theorem IsZeroSpan.split {segments : List Nat} {s : Span} (h : IsZeroSpan segments s) :
    segments.take s.start ++ List.replicate s.len 0 ++ segments.drop (s.start + s.len) =
      segments := by
  rw [← h.zeroes, List.append_assoc, ← List.drop_drop, List.take_append_drop,
    List.take_append_drop]

theorem ipv4Mapped_eq_some {segments octets : List Nat} (h : ipv4Mapped segments = some octets)
    (hlt : ∀ segment ∈ segments, segment < 65536) :
    octets.length = 4 ∧ (∀ octet ∈ octets, octet < 256) ∧
      segments = List.replicate 5 0 ++ (65535 :: pairs octets) := by
  unfold ipv4Mapped at h
  split at h
  · rename_i high low
    obtain rfl := Option.some.inj h
    have hhigh := hlt high (by simp)
    have hlow := hlt low (by simp)
    refine ⟨rfl,?_,?_⟩
    · intro octet hoctet
      simp only [List.mem_cons, List.not_mem_nil, or_false] at hoctet
      omega
    · have hjoin (n : Nat) : n / 256 * 256 + n % 256 = n := by omega
      simp only [pairs, hjoin]
      rfl
  · cases h

theorem readSegments_full {segments : List Nat} {text : List Char} (hlen : segments.length = 8)
    (h : ∀ segment ∈ segments, segment < 65536) (hstops : Stops text) :
    readSegments (fmtSubslice segments ++ text) = some (segments, text) := by
  rw [readSegments, readGroups_fmtSubslice (by omega) h hstops]
  exact if_pos hlen

theorem stops_double (text : List Char) : Stops (':' :: ':' :: text) := by
  refine ⟨ends_cons _ (by decide),?_,?_⟩
  · intro rest heq
    exact absurd (List.cons.inj heq).1 (by decide)
  · intro rest heq
    exact ⟨text,(List.cons.inj heq).2.symm⟩

theorem readSegments_abbreviated (front back : List Char) (head : List Nat) {tail : List Nat}
    {text : List Char}
    (hhead : readGroups 8 true (front ++ (':' :: ':' :: (back ++ text))) =
      ⟨head, false, ':' :: ':' :: (back ++ text)⟩)
    (hlen : head.length < 8) {ipv4 : Bool}
    (htail : readGroups (8 - (head.length + 1)) true (back ++ text) = ⟨tail, ipv4, text⟩) :
    readSegments (front ++ (':' :: ':' :: (back ++ text))) =
      some (head ++ List.replicate (8 - tail.length - head.length) 0 ++ tail, text) := by
  have hne : ¬head.length = 8 := by omega
  rw [readSegments, hhead]
  simp only
  rw [if_neg hne, if_neg Bool.false_ne_true, readGivenChar_cons, Option.bind_some,
    readGivenChar_cons, Option.map_some, htail]

theorem readGroups_mapped {octets : List Nat} {text : List Char} (hlen : octets.length = 4)
    (h : ∀ octet ∈ octets, octet < 256) (ht : Ends 10 text) :
    readGroups 7 true (['f', 'f', 'f', 'f', ':'] ++ fmtOctets octets ++ text) =
      ⟨65535 :: pairs octets, true, text⟩ := by
  have hfirst : hexadecimal 65535 = ['f', 'f', 'f', 'f'] := by decide
  have hends : Ends 16 (':' :: (fmtOctets octets ++ text)) := ends_cons _ (by decide)
  have hdot (rest : List Char) : ':' :: (fmtOctets octets ++ text) ≠ '.' :: rest :=
    fun heq => absurd (List.cons.inj heq).1 (by decide)
  have hgroup := readGroups_group 6 true (by decide : 65535 < 65536) hends hdot
  have hread : readSeparator ':' false readIpv4Addr (':' :: (fmtOctets octets ++ text)) =
      some (octets, text) := by
    rw [readSeparator, if_neg Bool.false_ne_true, readGivenChar_cons, Option.bind_some,
      readIpv4Addr_fmtOctets hlen h ht]
  have hrest : readGroups 6 false (':' :: (fmtOctets octets ++ text)) =
      ⟨pairs octets, true, text⟩ := by
    rw [readGroups, if_pos (by decide), hread]
  rw [hrest, hfirst] at hgroup
  exact hgroup

theorem readSegments_zeroSpan {segments : List Nat} {s : Span} {text : List Char}
    (hlen : segments.length = 8) (h : ∀ segment ∈ segments, segment < 65536)
    (hstops : Stops text) (hspan : IsZeroSpan segments s) (hlong : 1 < s.len) :
    readSegments (fmtSubslice (segments.take s.start) ++
      (':' :: ':' :: (fmtSubslice (segments.drop (s.start + s.len)) ++ text))) =
      some (segments, text) := by
  have hbound := hspan.bound
  have htake : (segments.take s.start).length = s.start := by
    rw [List.length_take]
    omega
  have hdrop : (segments.drop (s.start + s.len)).length = 8 - (s.start + s.len) := by
    rw [List.length_drop, hlen]
  have hfront : (segments.take s.start).length ≤ 8 := by omega
  have hback : (segments.drop (s.start + s.len)).length ≤
      8 - ((segments.take s.start).length + 1) := by
    omega
  have hhead := readGroups_fmtSubslice hfront
    (fun segment hs => h segment (List.mem_of_mem_take hs))
    (stops_double (fmtSubslice (segments.drop (s.start + s.len)) ++ text))
  have htail := readGroups_fmtSubslice hback
    (fun segment hs => h segment (List.mem_of_mem_drop hs)) hstops
  have hread := readSegments_abbreviated _ _ _ hhead (by omega) htail
  have hcount : 8 - (segments.drop (s.start + s.len)).length -
      (segments.take s.start).length = s.len := by
    omega
  rw [hcount, hspan.split] at hread
  exact hread

theorem readSegments_fmtSegments {segments : List Nat} {text : List Char}
    (hlen : segments.length = 8) (h : ∀ segment ∈ segments, segment < 65536)
    (hstops : Stops text) :
    readSegments (fmtSegments segments ++ text) = some (segments, text) := by
  rw [fmtSegments]
  cases hmapped : ipv4Mapped segments with
  | some octets =>
    obtain ⟨hcount,hoctets,rfl⟩ := ipv4Mapped_eq_some hmapped h
    have htail := readGroups_mapped hcount hoctets (ends_decimal hstops.hex)
    have hpairs : (65535 :: pairs octets).length = 3 := by
      simpa using hlen
    have hhead := readGroups_stops 8 true (stops_double
      (['f', 'f', 'f', 'f', ':'] ++ fmtOctets octets ++ text))
    have hread := readSegments_abbreviated [] _ [] hhead (by decide) htail
    rw [hpairs] at hread
    exact hread
  | none =>
    have hspan := longestZeroes_isZeroSpan List.drop_zero (isZeroSpan_empty segments)
      (isZeroSpan_empty segments) (Or.inl rfl)
    simp only
    split_ifs with hlong
    · rw [List.append_assoc]
      exact readSegments_zeroSpan hlen h hstops hspan hlong
    · exact readSegments_full hlen h hstops

def IsTextChar (c : Char) : Prop := c = ':' ∨ c = '.' ∨ ∃ d < 16, c = Nat.digitChar d

theorem isTextChar_toDigits {radix : Nat} (hb : 1 < radix) (hr : radix ≤ 16) (n : Nat) :
    ∀ c ∈ Nat.toDigits radix n, IsTextChar c := by
  intro c hc
  obtain ⟨d,hd,rfl⟩ := Numeral.mem_toDigits hb hc
  exact .inr (.inr ⟨d,by omega,rfl⟩)

theorem isTextChar_decimal : ∀ n, ∀ c ∈ decimal n, IsTextChar c :=
  isTextChar_toDigits (by decide) (by decide)

theorem isTextChar_hexadecimal : ∀ n, ∀ c ∈ hexadecimal n, IsTextChar c :=
  isTextChar_toDigits (by decide) (by decide)

theorem isTextChar_joined {digits : Nat → List Char} {sep c : Char} (hsep : IsTextChar sep)
    (hdigits : ∀ n, ∀ d ∈ digits n, IsTextChar d) {first : Nat} {tail : List Nat}
    (h : c ∈ digits first ++ tail.flatMap (fun n => sep :: digits n)) : IsTextChar c := by
  rcases List.mem_append.mp h with h | h
  · exact hdigits first c h
  · obtain ⟨n,-,hc⟩ := List.mem_flatMap.mp h
    rcases List.mem_cons.mp hc with rfl | hc
    · exact hsep
    · exact hdigits n c hc

theorem isTextChar_fmtOctets {octets : List Nat} {c : Char} (h : c ∈ fmtOctets octets) :
    IsTextChar c := by
  cases octets with
  | nil => cases h
  | cons first tail => exact isTextChar_joined (.inr (.inl rfl)) isTextChar_decimal h

theorem isTextChar_fmtSubslice {segments : List Nat} {c : Char} (h : c ∈ fmtSubslice segments) :
    IsTextChar c := by
  cases segments with
  | nil => cases h
  | cons first tail => exact isTextChar_joined (.inl rfl) isTextChar_hexadecimal h

theorem isTextChar_mapped : ∀ c ∈ [':', ':', 'f', 'f', 'f', 'f', ':'], IsTextChar c := by
  intro c hc
  simp only [List.mem_cons, List.not_mem_nil, or_false] at hc
  rcases hc with rfl | rfl | rfl | rfl | rfl | rfl | rfl
  any_goals exact .inl rfl
  all_goals exact .inr (.inr ⟨15,by decide,by decide⟩)

theorem isTextChar_fmtSegments {segments : List Nat} {c : Char} (h : c ∈ fmtSegments segments) :
    IsTextChar c := by
  rw [fmtSegments] at h
  cases hmapped : ipv4Mapped segments with
  | some octets =>
    rw [hmapped] at h
    rcases List.mem_append.mp h with h | h
    · exact isTextChar_mapped c h
    · exact isTextChar_fmtOctets h
  | none =>
    simp only [hmapped] at h
    split_ifs at h
    · rcases List.mem_append.mp h with h | h
      · exact isTextChar_fmtSubslice h
      · rcases List.mem_cons.mp h with rfl | h
        · exact .inl rfl
        · rcases List.mem_cons.mp h with rfl | h
          · exact .inl rfl
          · exact isTextChar_fmtSubslice h
    · exact isTextChar_fmtSubslice h

end IpText
