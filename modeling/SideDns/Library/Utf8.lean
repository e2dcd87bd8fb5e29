import Mathlib.Data.List.DropRight
import Mathlib.Data.List.Infix

namespace Utf8

def bytes (s : String) : List UInt8 := s.toByteArray.data.toList

def len (s : String) : Nat := s.utf8ByteSize

def stripPrefix (s pre : String) : Option String :=
  if pre.toList.isPrefixOf s.toList then
    some (String.ofList (s.toList.drop pre.toList.length))
  else none

def endsWith (s suffix : String) : Bool := (bytes suffix).isSuffixOf (bytes s)

def startsWith (s pre : String) : Bool := pre.toList.isPrefixOf s.toList

def contains (s pat : String) : Bool := decide (pat.toList <:+: s.toList)

def toAsciiLowercase (s : String) : String := String.ofList (s.toList.map Char.toLower)

theorem forall_mem_of_all {l : List Char} {p : Char → Prop} [DecidablePred p]
    (h : l.all (fun c => decide (p c)) = true) : ∀ c ∈ l, p c :=
  fun c hc => of_decide_eq_true (List.all_eq_true.mp h c hc)

theorem toLower_of_not_upper {c : Char} (h : ¬('A'.toNat ≤ c.toNat ∧ c.toNat ≤ 'Z'.toNat)) :
    c.toLower = c :=
  dif_neg h

@[simp] theorem toList_toAsciiLowercase (s : String) :
    (toAsciiLowercase s).toList = s.toList.map Char.toLower := by
  rw [toAsciiLowercase, String.toList_ofList]

def eqIgnoreAsciiCase (s t : String) : Bool := toAsciiLowercase s == toAsciiLowercase t

theorem eqIgnoreAsciiCase_iff {s t : String} :
    eqIgnoreAsciiCase s t = true ↔ s.toList.map Char.toLower = t.toList.map Char.toLower := by
  rw [eqIgnoreAsciiCase, beq_iff_eq, ← String.toList_inj, toList_toAsciiLowercase,
    toList_toAsciiLowercase]

def trimEndMatches (s : String) (c : Char) : String :=
  String.ofList (s.toList.rdropWhile (fun x => x == c))

def splitNext (s : String) (c : Char) : String :=
  String.ofList (s.toList.takeWhile (fun x => x != c))

def replaceFrom (pat rep : List Char) : Nat → List Char → List Char
  | _, [] => []
  | skip + 1, _ :: rest => replaceFrom pat rep skip rest
  | 0, c :: rest =>
      if pat.isPrefixOf (c :: rest) then rep ++ replaceFrom pat rep (pat.length - 1) rest
      else c :: replaceFrom pat rep 0 rest

def replace (s pat rep : String) : String :=
  String.ofList (replaceFrom pat.toList rep.toList 0 s.toList)

def fields (s : String) (sep : Char) : List (List Char) := s.toList.splitOn sep

theorem fields_append (front back : String) (sep : Char) :
    fields (front ++ (String.singleton sep ++ back)) sep =
      fields front sep ++ fields back sep := by
  have hlist : (front ++ (String.singleton sep ++ back)).toList =
      front.toList ++ sep :: back.toList := by
    simp
  rw [fields, hlist, List.splitOn_append_cons_self]
  rfl

theorem fields_of_notMem {s : String} {sep : Char} (h : sep ∉ s.toList) :
    fields s sep = [s.toList] :=
  List.splitOn_eq_singleton h

theorem fields_intercalate {parts : List String} {sep : Char} (hne : parts ≠ [])
    (h : ∀ part ∈ parts, sep ∉ part.toList) :
    fields ((String.singleton sep).intercalate parts) sep = parts.map String.toList := by
  rw [fields, String.toList_intercalate, String.toList_singleton]
  refine List.splitOn_intercalate sep ?_ (by simpa using hne)
  intro part hp
  obtain ⟨text,ht,rfl⟩ := List.mem_map.mp hp
  exact h text ht

theorem length_bytes (s : String) : (bytes s).length = len s := by
  rw [bytes, Array.length_toList]
  rfl

theorem bytes_append (s t : String) : bytes (s ++ t) = bytes s ++ bytes t := by
  simp [bytes, String.toByteArray_append, ByteArray.data_append]

theorem bytes_injective {s t : String} (h : bytes s = bytes t) : s = t := by
  apply String.toByteArray_inj.mp
  exact ByteArray.ext (Array.toList_inj.mp h)

theorem bytes_eq_flatMap (s : String) : bytes s = s.toList.flatMap String.utf8EncodeChar := by
  rw [bytes, ← String.utf8Encode_toList, List.utf8Encode, List.data_toByteArray,
    List.toList_toArray]

theorem encode_of_ascii {l : List Char} (h : ∀ c ∈ l, c.toNat < 128) :
    l.flatMap String.utf8EncodeChar = l.map (fun c => UInt8.ofNat c.toNat) := by
  induction l with
  | nil => rfl
  | cons c l ih =>
    obtain ⟨hc,hl⟩ := List.forall_mem_cons.mp h
    have hval : c.val.toNat = c.toNat := rfl
    have hone : String.utf8EncodeChar c = [UInt8.ofNat c.toNat] := by
      rw [String.utf8EncodeChar, hval]
      exact if_pos (by omega)
    rw [List.flatMap_cons, hone, ih hl]
    rfl

theorem bytes_of_ascii {s : String} (h : ∀ c ∈ s.toList, c.toNat < 128) :
    bytes s = s.toList.map (fun c => UInt8.ofNat c.toNat) := by
  rw [bytes_eq_flatMap, encode_of_ascii h]

theorem len_eq_encoding (s : String) :
    len s = (s.toList.flatMap String.utf8EncodeChar).length := by
  rw [← length_bytes, bytes_eq_flatMap]

theorem len_map_le {f : Char → Char} (hf : ∀ c, (f c).utf8Size ≤ c.utf8Size) {s t : String}
    (ht : t.toList = s.toList.map f) : len t ≤ len s := by
  rw [len_eq_encoding, len_eq_encoding, ht]
  induction s.toList with
  | nil => exact Nat.le_refl 0
  | cons c l ih =>
    have hc := hf c
    simp only [List.map_cons, List.flatMap_cons, List.length_append, String.length_utf8EncodeChar]
    omega

theorem len_map_eq {f : Char → Char} (hf : ∀ c, (f c).utf8Size = c.utf8Size) {s t : String}
    (ht : t.toList = s.toList.map f) : len t = len s := by
  rw [len_eq_encoding, len_eq_encoding, ht]
  induction s.toList with
  | nil => rfl
  | cons c l ih =>
    have hc := hf c
    simp only [List.map_cons, List.flatMap_cons, List.length_append, String.length_utf8EncodeChar]
    omega

theorem toNat_of_mem_encoding {c : Char} {b : UInt8} (h : b ∈ String.utf8EncodeChar c)
    (hb : b.toNat < 128) : c.toNat = b.toNat := by
  have hc : c.val.toNat = c.toNat := rfl
  rw [String.utf8EncodeChar, hc] at h
  split_ifs at h
  all_goals
    simp only [List.mem_cons, List.not_mem_nil, or_false] at h
    rcases h with rfl | rfl | rfl | rfl
  all_goals
    simp only [UInt8.toNat_ofNat'] at hb ⊢
    omega

theorem exists_char_of_mem_bytes {s : String} {b : UInt8} (h : b ∈ bytes s)
    (hb : b.toNat < 128) : ∃ c ∈ s.toList, c.toNat = b.toNat := by
  rw [bytes_eq_flatMap] at h
  obtain ⟨c,hc,hmem⟩ := List.mem_flatMap.mp h
  exact ⟨c,hc,toNat_of_mem_encoding hmem hb⟩

theorem stripPrefix_append (pre rest : String) : stripPrefix (pre ++ rest) pre = some rest := by
  have hp : pre.toList.isPrefixOf (pre ++ rest).toList = true := by
    rw [String.toList_append, List.isPrefixOf_iff_prefix]
    exact List.prefix_append _ _
  rw [stripPrefix, if_pos hp, String.toList_append, List.drop_left, String.ofList_toList]

theorem stripPrefix_eq_some_iff {s pre rest : String} :
    stripPrefix s pre = some rest ↔ s = pre ++ rest := by
  constructor
  · intro h
    rw [stripPrefix] at h
    split_ifs at h with hp
    obtain ⟨t,ht⟩ := List.isPrefixOf_iff_prefix.mp hp
    obtain rfl := Option.some.inj h
    apply String.toList_inj.mp
    rw [← ht, List.drop_left, String.toList_append, String.toList_ofList]
  · rintro rfl
    exact stripPrefix_append pre rest

theorem stripPrefix_eq_none {s pre : String} {c : Char} (hp : c ∈ pre.toList)
    (hs : c ∉ s.toList) : stripPrefix s pre = none := by
  cases h : stripPrefix s pre with
  | none => rfl
  | some rest =>
    rw [stripPrefix_eq_some_iff.mp h, String.toList_append, List.mem_append, not_or] at hs
    exact absurd hp hs.1

theorem startsWith_eq (s pre : String) : startsWith s pre = (stripPrefix s pre).isSome := by
  rw [startsWith, stripPrefix]
  cases pre.toList.isPrefixOf s.toList <;> rfl

theorem endsWith_iff (s suffix : String) :
    endsWith s suffix = true ↔ ∃ front, s = front ++ suffix := by
  rw [endsWith, List.isSuffixOf_iff_suffix]
  constructor
  · rintro ⟨pre,hpre⟩
    have hlen := congrArg List.length hpre
    rw [List.length_append, length_bytes, length_bytes] at hlen
    have hextract : s.toByteArray.extract pre.length s.utf8ByteSize = suffix.toByteArray := by
      apply ByteArray.ext
      apply Array.toList_inj.mp
      rw [ByteArray.data_extract, Array.toList_extract, List.extract_eq_take_drop]
      change ((bytes s).drop pre.length).take _ = bytes suffix
      rw [← hpre, List.drop_left]
      apply List.take_of_length_le
      rw [length_bytes]
      simp only [len] at hlen ⊢
      omega
    have hvalid : (⟨pre.length⟩ : String.Pos.Raw).IsValid s := by
      rw [String.Pos.Raw.isValid_iff_isValidUTF8_extract_utf8ByteSize, hextract]
      refine ⟨?_,suffix.isValidUTF8⟩
      rw [String.Pos.Raw.le_iff]
      simp only [len] at hlen
      simp only [String.byteIdx_rawEndPos]
      omega
    obtain ⟨front,back,rfl,hfront⟩ := String.Pos.Raw.isValid_iff_exists_append.mp hvalid
    refine ⟨front,?_⟩
    have hsize : pre.length = (bytes front).length := by
      have hidx := congrArg String.Pos.Raw.byteIdx hfront
      rw [length_bytes, len]
      simpa using hidx
    rw [bytes_append] at hpre
    have hback := (List.append_inj hpre hsize).2
    rw [bytes_injective hback]
  · rintro ⟨front,rfl⟩
    exact ⟨bytes front,(bytes_append front suffix).symm⟩

theorem getElem?_before_suffix {pre : List UInt8} {s suffix : String}
    (h : pre ++ bytes suffix = bytes s) (hne : pre ≠ []) :
    (bytes s)[len s - len suffix - 1]? = pre.getLast? := by
  have hpos := List.length_pos_of_ne_nil hne
  have hsize := congrArg List.length h
  rw [List.length_append, length_bytes, length_bytes] at hsize
  have hidx : len s - len suffix - 1 = pre.length - 1 := by omega
  rw [hidx, ← h, List.getElem?_append_left (by omega), List.getLast?_eq_getElem?]

theorem toList_prefix_of_bytes {s t : String} {rest : List UInt8} (h : bytes s ++ rest = bytes t) :
    s.toList <+: t.toList := by
  apply List.isPrefix_of_utf8Encode_append_eq_utf8Encode ⟨rest.toArray⟩
  rw [String.utf8Encode_toList, String.utf8Encode_toList]
  apply ByteArray.ext
  apply Array.toList_inj.mp
  rw [ByteArray.data_append, Array.toList_append]
  exact h

theorem trimEndMatches_append (s : String) (c : Char) (hs : s.toList.getLast? ≠ some c) :
    trimEndMatches (s ++ String.singleton c) c = s := by
  rw [trimEndMatches, String.toList_append, String.toList_singleton]
  rw [List.rdropWhile_concat_pos _ _ _ (by simp)]
  have hlast : s.toList.rdropWhile (fun x => x == c) = s.toList := by
    rw [List.rdropWhile_eq_self_iff]
    intro hne
    rw [List.getLast?_eq_some_getLast hne] at hs
    simpa using hs
  rw [hlast, String.ofList_toList]

theorem mem_trimEndMatches {s : String} {c d : Char} (hc : c ∈ s.toList) (hne : c ≠ d) :
    c ∈ (trimEndMatches s d).toList := by
  rw [trimEndMatches, String.toList_ofList]
  have hsplit : c ∈ s.toList.rdropWhile (fun x => x == d) ++
      s.toList.rtakeWhile (fun x => x == d) := by
    rwa [List.rdropWhile_append_rtakeWhile]
  rcases List.mem_append.mp hsplit with hmem | hmem
  · exact hmem
  · exact absurd (by simpa using List.mem_rtakeWhile_imp hmem) hne

theorem mem_of_mem_trimEndMatches {s : String} {c d : Char}
    (h : c ∈ (trimEndMatches s d).toList) : c ∈ s.toList := by
  rw [trimEndMatches, String.toList_ofList] at h
  exact (List.rdropWhile_prefix _ _).subset h

theorem replaceFrom_absent {pat rep : List Char} {l : List Char}
    (h : ∀ c ∈ pat.head?, c ∉ l) (hp : pat ≠ []) : replaceFrom pat rep 0 l = l := by
  induction l with
  | nil => rfl
  | cons c l ih =>
    obtain ⟨p,pat,rfl⟩ := List.exists_cons_of_ne_nil hp
    have hc : p ≠ c := fun heq => h p rfl (heq ▸ List.mem_cons_self)
    have hn : (p :: pat).isPrefixOf (c :: l) = false := by
      simp [List.isPrefixOf, hc]
    rw [replaceFrom, hn, if_neg Bool.false_ne_true]
    exact congrArg (c :: ·) (ih fun d hd hm => h d hd (List.mem_cons_of_mem c hm))

end Utf8
