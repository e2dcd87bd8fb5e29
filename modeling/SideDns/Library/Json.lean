import SideDns.Library.Numeral

inductive Json where
  | null
  | bool (value : Bool)
  | number (value : Nat)
  | real
  | string (value : String)
  | array (items : List Json)
  | object (members : List (String × Json))

namespace Json

open Numeral (Ends digitValue digitValue_digitChar ends_cons)

def shortEscapes : List (Char × Char) :=
  [('"', '"'), ('\\', '\\'), ('\x08', 'b'), ('\x0c', 'f'), ('\n', 'n'), ('\r', 'r'), ('\t', 't')]

def escape (c : Char) : List Char :=
  match shortEscapes.lookup c with
  | some e => ['\\', e]
  | none =>
    if c.toNat < 32 then
      ['\\', 'u', '0', '0', Nat.digitChar (c.toNat / 16), Nat.digitChar (c.toNat % 16)]
    else [c]

def quote (s : String) : List Char := '"' :: (s.toList.flatMap escape ++ ['"'])

def unescape (e : Char) : Option Char :=
  if e = '/' then some '/' else (shortEscapes.find? fun p => p.2 == e).map Prod.fst

inductive CodeUnit where
  | char (c : Char)
  | leading (high : Nat)
  | lone

def codeUnit (high : Option Nat) (value : Nat) : CodeUnit :=
  match high with
  | some high =>
    if 0xdc00 ≤ value ∧ value ≤ 0xdfff then
      .char (Char.ofNat (0x10000 + (high - 0xd800) * 0x400 + (value - 0xdc00)))
    else .lone
  | none =>
    if 0xd800 ≤ value ∧ value ≤ 0xdbff then .leading value
    else if 0xdc00 ≤ value ∧ value ≤ 0xdfff then .lone
    else .char (Char.ofNat value)

inductive TextState where
  | plain
  | escaped
  | code (left value : Nat) (high : Option Nat)
  | paired (high : Nat) (slash : Bool)

def parseText : TextState → List Char → Option (List Char × List Char)
  | _, [] => none
  | .plain, c :: rest =>
      if c = '"' then some ([], rest)
      else if c = '\\' then parseText .escaped rest
      else if c.toNat < 32 then none
      else (parseText .plain rest).map fun p => (c :: p.1, p.2)
  | .escaped, c :: rest =>
      if c = 'u' then parseText (.code 3 0 none) rest
      else (unescape c).bind fun d => (parseText .plain rest).map fun p => (d :: p.1, p.2)
  | .code 0 value high, c :: rest =>
      (digitValue c).bind fun v =>
        match codeUnit high (value * 16 + v) with
        | .char d => (parseText .plain rest).map fun p => (d :: p.1, p.2)
        | .leading high => parseText (.paired high false) rest
        | .lone => none
  | .code (left + 1) value high, c :: rest =>
      (digitValue c).bind fun v => parseText (.code left (value * 16 + v) high) rest
  | .paired high false, c :: rest =>
      if c = '\\' then parseText (.paired high true) rest else none
  | .paired high true, c :: rest =>
      if c = 'u' then parseText (.code 3 0 (some high)) rest else none

theorem codeUnit_control {c : Char} (h : c.toNat < 32) : codeUnit none c.toNat = .char c := by
  rw [codeUnit, if_neg (by omega), if_neg (by omega), Char.ofNat_toNat]

theorem mem_of_lookup {c e : Char} (h : shortEscapes.lookup c = some e) :
    (c, e) ∈ shortEscapes := by
  obtain ⟨before,after,heq,-⟩ := List.lookup_eq_some_iff.mp h
  rw [heq]
  simp

theorem unescape_of_mem : ∀ p ∈ shortEscapes, p.2 ≠ 'u' ∧ unescape p.2 = some p.1 := by decide

theorem parseText_escape (c : Char) (rest : List Char) :
    parseText .plain (escape c ++ rest) =
      (parseText .plain rest).map fun p => (c :: p.1, p.2) := by
  rw [escape]
  cases hl : shortEscapes.lookup c with
  | some e =>
    obtain ⟨hu,hun⟩ := unescape_of_mem _ (mem_of_lookup hl)
    change parseText .plain ('\\' :: e :: rest) = _
    rw [parseText, if_neg (by decide), if_pos rfl, parseText, if_neg hu, hun, Option.bind_some]
  | none =>
    by_cases hc : c.toNat < 32
    · have hhigh := digitValue_digitChar (c.toNat / 16) (by omega)
      have hlow := digitValue_digitChar (c.toNat % 16) (by omega)
      have hzero : digitValue '0' = some 0 := by decide
      have hcode : ((0 * 16 + 0) * 16 + 0) * 16 + c.toNat / 16 = c.toNat / 16 := by omega
      have hvalue : c.toNat / 16 * 16 + c.toNat % 16 = c.toNat := by omega
      simp only [if_pos hc]
      change parseText .plain ('\\' :: 'u' :: '0' :: '0' :: Nat.digitChar (c.toNat / 16) ::
        Nat.digitChar (c.toNat % 16) :: rest) = _
      rw [parseText, if_neg (by decide), if_pos rfl, parseText, if_pos rfl, parseText, hzero,
        Option.bind_some, parseText, hzero, Option.bind_some, parseText, hhigh, Option.bind_some,
        hcode, parseText, hlow, Option.bind_some, hvalue, codeUnit_control hc]
    · have hquote : c ≠ '"' := by
        rintro rfl
        revert hl
        decide
      have hback : c ≠ '\\' := by
        rintro rfl
        revert hl
        decide
      simp only [if_neg hc]
      change parseText .plain (c :: rest) = _
      rw [parseText, if_neg hquote, if_neg hback, if_neg hc]

theorem parseText_quoted (s rest : List Char) :
    parseText .plain (s.flatMap escape ++ '"' :: rest) = some (s, rest) := by
  induction s with
  | nil =>
    change parseText .plain ('"' :: rest) = _
    rw [parseText, if_pos rfl]
  | cons c s ih =>
    rw [List.flatMap_cons, List.append_assoc, parseText_escape, ih]
    rfl

theorem escape_printable {c d : Char} (h : d ∈ escape c) : 32 ≤ d.toNat := by
  have hshort : ∀ p ∈ shortEscapes, 32 ≤ p.2.toNat := by decide
  have hdigit : ∀ n < 16, 32 ≤ (Nat.digitChar n).toNat := by decide
  rw [escape] at h
  cases hl : shortEscapes.lookup c with
  | some e =>
    simp only [hl] at h
    rcases List.mem_cons.mp h with rfl | h
    · decide
    · obtain rfl := List.mem_singleton.mp h
      exact hshort _ (mem_of_lookup hl)
  | none =>
    simp only [hl] at h
    split_ifs at h with hc
    · simp only [List.mem_cons, List.not_mem_nil, or_false] at h
      rcases h with rfl | rfl | rfl | rfl | rfl | rfl
      · decide
      · decide
      · decide
      · decide
      · exact hdigit _ (by omega)
      · exact hdigit _ (by omega)
    · obtain rfl := List.mem_singleton.mp h
      omega

theorem quote_printable {s : String} {c : Char} (h : c ∈ quote s) : 32 ≤ c.toNat := by
  rcases List.mem_cons.mp h with rfl | h
  · decide
  · rcases List.mem_append.mp h with h | h
    · obtain ⟨d,-,hd⟩ := List.mem_flatMap.mp h
      exact escape_printable hd
    · obtain rfl := List.mem_singleton.mp h
      decide

def separator (first : Bool) : List Char := if first then [] else [',']

mutual

def print : Json → List Char
  | .null => ['n', 'u', 'l', 'l']
  | .bool true => ['t', 'r', 'u', 'e']
  | .bool false => ['f', 'a', 'l', 's', 'e']
  | .number value => Nat.toDigits 10 value
  | .real => ['-', '0']
  | .string value => quote value
  | .array items => '[' :: printItems true items
  | .object members => '{' :: printMembers true members

def printItems (first : Bool) : List Json → List Char
  | [] => [']']
  | item :: rest => separator first ++ (print item ++ printItems false rest)

def printMembers (first : Bool) : List (String × Json) → List Char
  | [] => ['}']
  | (key, value) :: rest =>
      separator first ++ (quote key ++ (':' :: (print value ++ printMembers false rest)))

end

def isSpace (c : Char) : Bool := c == ' ' || c == '\n' || c == '\t' || c == '\r'

def skipSpaces (text : List Char) : List Char := text.dropWhile isSpace

def parseSeparator (first : Bool) (text : List Char) : Option (List Char) :=
  match first, text with
  | true, text => some text
  | false, ',' :: rest => some rest
  | false, _ => none

def parseKey (text : List Char) : Option (String × List Char) :=
  match skipSpaces text with
  | '"' :: rest =>
      (parseText .plain rest).bind fun p =>
        match skipSpaces p.2 with
        | ':' :: rest => some (String.ofList p.1, rest)
        | _ => none
  | _ => none

def parseDigits (text : List Char) : Option (List Char) :=
  let digits := Numeral.span 10 text
  if digits.1 = [] then none else some digits.2

def parseFraction : List Char → Option (List Char)
  | '.' :: rest => parseDigits rest
  | text => some text

def skipSign : List Char → List Char
  | '+' :: rest => rest
  | '-' :: rest => rest
  | text => text

def parseExponent : List Char → Option (List Char)
  | [] => some []
  | c :: rest => if c = 'e' ∨ c = 'E' then parseDigits (skipSign rest) else some (c :: rest)

def parseUnsigned (text : List Char) : Option (Json × List Char) :=
  let digits := Numeral.span 10 text
  if digits.1 = [] ∨ (digits.1.head? = some '0' ∧ digits.1 ≠ ['0']) then none
  else (parseFraction digits.2).bind fun middle => (parseExponent middle).map fun rest =>
    (if rest = digits.2 then .number (Numeral.value 10 digits.1) else .real, rest)

def parseNumber : List Char → Option (Json × List Char)
  | '-' :: rest => (parseUnsigned rest).map fun p => (.real, p.2)
  | text => parseUnsigned text

def parseLiteral : List Char → Option (Json × List Char)
  | 'n' :: 'u' :: 'l' :: 'l' :: rest => some (.null, rest)
  | 't' :: 'r' :: 'u' :: 'e' :: rest => some (.bool true, rest)
  | 'f' :: 'a' :: 'l' :: 's' :: 'e' :: rest => some (.bool false, rest)
  | text => parseNumber text

mutual

def parseValue : Nat → List Char → Option (Json × List Char)
  | 0, _ => none
  | fuel + 1, text =>
    match skipSpaces text with
    | [] => none
    | c :: rest =>
      if c = '"' then (parseText .plain rest).map fun p => (.string (String.ofList p.1), p.2)
      else if c = '[' then (parseItems fuel true rest).map fun p => (.array p.1, p.2)
      else if c = '{' then (parseMembers fuel true rest).map fun p => (.object p.1, p.2)
      else parseLiteral (c :: rest)

def parseItems : Nat → Bool → List Char → Option (List Json × List Char)
  | 0, _, _ => none
  | fuel + 1, first, text =>
    match skipSpaces text with
    | [] => none
    | c :: rest =>
      if c = ']' then some ([], rest)
      else (parseSeparator first (c :: rest)).bind fun text =>
        (parseValue fuel text).bind fun item =>
          (parseItems fuel false item.2).map fun p => (item.1 :: p.1, p.2)

def parseMembers : Nat → Bool → List Char → Option (List (String × Json) × List Char)
  | 0, _, _ => none
  | fuel + 1, first, text =>
    match skipSpaces text with
    | [] => none
    | c :: rest =>
      if c = '}' then some ([], rest)
      else (parseSeparator first (c :: rest)).bind fun text =>
        (parseKey text).bind fun key => (parseValue fuel key.2).bind fun value =>
          (parseMembers fuel false value.2).map fun p => ((key.1, value.1) :: p.1, p.2)

end

def parse (text : List Char) : Option Json :=
  (parseValue (text.length + 1) text).bind fun p =>
    if skipSpaces p.2 = [] then some p.1 else none

theorem skipSpaces_cons {c : Char} (text : List Char) (h : isSpace c = false) :
    skipSpaces (c :: text) = c :: text :=
  List.dropWhile_cons_of_neg (by simp [h])

structure Opens (c : Char) : Prop where
  space : isSpace c = false
  bracket : c ≠ ']'
  brace : c ≠ '}'

theorem opens_digitChar : ∀ d < 10, Opens (Nat.digitChar d) := by
  intro d hd
  have hall : ∀ d < 10, isSpace (Nat.digitChar d) = false ∧ Nat.digitChar d ≠ ']' ∧
      Nat.digitChar d ≠ '}' := by decide
  obtain ⟨hs,hk,hc⟩ := hall d hd
  exact ⟨hs,hk,hc⟩

theorem toDigits_cons (n : Nat) :
    ∃ d < 10, ∃ tail, Nat.toDigits 10 n = Nat.digitChar d :: tail := by
  obtain ⟨c,tail,heq⟩ := List.exists_cons_of_ne_nil (Nat.toDigits_ne_nil (n := n) (b := 10))
  have hmem : c ∈ Nat.toDigits 10 n := heq ▸ List.mem_cons_self
  obtain ⟨d,hd,rfl⟩ := Numeral.mem_toDigits (by decide) hmem
  exact ⟨d,hd,tail,heq⟩

theorem print_opens (value : Json) : ∃ c tail, print value = c :: tail ∧ Opens c := by
  cases value with
  | null => exact ⟨_,_,rfl,by decide,by decide,by decide⟩
  | bool value => cases value <;> exact ⟨_,_,rfl,by decide,by decide,by decide⟩
  | number value =>
    obtain ⟨d,hd,tail,heq⟩ := toDigits_cons value
    exact ⟨_,_,heq,opens_digitChar d hd⟩
  | real => exact ⟨_,_,rfl,by decide,by decide,by decide⟩
  | string value => exact ⟨_,_,rfl,by decide,by decide,by decide⟩
  | array items => exact ⟨_,_,rfl,by decide,by decide,by decide⟩
  | object members => exact ⟨_,_,rfl,by decide,by decide,by decide⟩

theorem parseSeparator_append (first : Bool) (text : List Char) :
    parseSeparator first (separator first ++ text) = some text := by
  cases first <;> rfl

theorem separator_print (first : Bool) (value : Json) (text : List Char) :
    ∃ c tail, separator first ++ (print value ++ text) = c :: tail ∧ Opens c := by
  cases first with
  | true =>
    obtain ⟨c,tail,heq,hc⟩ := print_opens value
    exact ⟨c,tail ++ text,by rw [heq]; rfl,hc⟩
  | false => exact ⟨',',_,rfl,by decide,by decide,by decide⟩

theorem parseKey_quote (key : String) (text : List Char) :
    parseKey (quote key ++ ':' :: text) = some (key, text) := by
  have hquote : quote key ++ ':' :: text =
      '"' :: (key.toList.flatMap escape ++ '"' :: ':' :: text) := by
    simp [quote]
  rw [hquote, parseKey, skipSpaces_cons _ (by decide)]
  simp only [parseText_quoted, Option.bind_some]
  rw [skipSpaces_cons _ (by decide), String.ofList_toList]
  rfl

structure Follows (text : List Char) : Prop where
  ends : Ends 10 text
  fraction : ∀ rest, text ≠ '.' :: rest
  exponent : ∀ c ∈ text.head?, ¬ (c = 'e' ∨ c = 'E')

theorem follows_nil : Follows [] := ⟨by simp [Ends],by simp,by simp⟩

theorem follows_cons {c : Char} (text : List Char) (hd : Numeral.isDigit 10 c = false)
    (hf : c ≠ '.') (he : ¬ (c = 'e' ∨ c = 'E')) : Follows (c :: text) := by
  refine ⟨ends_cons _ hd,?_,?_⟩
  · rintro rest heq
    exact hf (List.cons.inj heq).1
  · intro d hd
    obtain rfl := Option.some.inj hd
    exact he

theorem Follows.parseFraction {text : List Char} (h : Follows text) :
    Json.parseFraction text = some text := by
  rw [Json.parseFraction]
  exact h.fraction

theorem Follows.parseExponent {text : List Char} (h : Follows text) :
    Json.parseExponent text = some text := by
  cases text with
  | nil => rfl
  | cons c rest => exact if_neg (h.exponent c rfl)

theorem parseUnsigned_toDigits (n : Nat) {text : List Char} (h : Follows text) :
    parseUnsigned (Nat.toDigits 10 n ++ text) = some (.number n, text) := by
  have hspan := Numeral.span_toDigits (n := n) (by decide) (by decide) h.ends
  rw [parseUnsigned, hspan]
  have hne : ¬(Nat.toDigits 10 n = [] ∨
      ((Nat.toDigits 10 n).head? = some '0' ∧ Nat.toDigits 10 n ≠ ['0'])) := by
    rintro (hnil | ⟨hzero,hlong⟩)
    · exact Nat.toDigits_ne_nil hnil
    · exact hlong (Numeral.toDigits_head_zero (by decide) (by decide) hzero)
  simp only
  rw [if_neg hne, h.parseFraction, Option.bind_some, h.parseExponent, Option.map_some, if_pos rfl,
    Numeral.value_toDigits (by decide) (by decide)]

theorem parseNumber_digit {c : Char} (tail : List Char) (h : Numeral.isDigit 10 c = true) :
    parseNumber (c :: tail) = parseUnsigned (c :: tail) := by
  rw [parseNumber]
  rintro rest heq
  obtain rfl := (List.cons.inj heq).1
  revert h
  decide

theorem parseNumber_toDigits (n : Nat) {text : List Char} (h : Follows text) :
    parseNumber (Nat.toDigits 10 n ++ text) = some (.number n, text) := by
  obtain ⟨d,hd,tail,heq⟩ := toDigits_cons n
  have hunsigned := parseUnsigned_toDigits n h
  rw [heq, List.cons_append] at hunsigned ⊢
  rw [parseNumber_digit _ (Numeral.isDigit_digitChar (by decide) hd), hunsigned]

theorem parseNumber_real {text : List Char} (h : Follows text) :
    parseNumber ('-' :: '0' :: text) = some (.real, text) := by
  have hzero : parseUnsigned ('0' :: text) = some (.number 0, text) := parseUnsigned_toDigits 0 h
  rw [parseNumber, hzero]
  rfl

theorem follows_printItems (items : List Json) (text : List Char) :
    Follows (printItems false items ++ text) := by
  cases items with
  | nil => exact follows_cons _ (by decide) (by decide) (by decide)
  | cons item rest => exact follows_cons _ (by decide) (by decide) (by decide)

theorem follows_printMembers (members : List (String × Json)) (text : List Char) :
    Follows (printMembers false members ++ text) := by
  cases members with
  | nil => exact follows_cons _ (by decide) (by decide) (by decide)
  | cons member rest => exact follows_cons _ (by decide) (by decide) (by decide)

theorem print_length_pos (value : Json) : 0 < (print value).length := by
  obtain ⟨c,tail,heq,-⟩ := print_opens value
  rw [heq]
  exact Nat.succ_pos _

theorem parseLiteral_number {d : Nat} {text : List Char} (hd : d < 10) :
    parseLiteral (Nat.digitChar d :: text) = parseNumber (Nat.digitChar d :: text) := by
  have hall : ∀ d < 10, Nat.digitChar d ≠ 'n' ∧ Nat.digitChar d ≠ 't' ∧
      Nat.digitChar d ≠ 'f' := by decide
  obtain ⟨hn,ht,hf⟩ := hall d hd
  rw [parseLiteral]
  · intro rest h
    exact hn (List.cons.inj h).1
  · intro rest h
    exact ht (List.cons.inj h).1
  · intro rest h
    exact hf (List.cons.inj h).1

theorem parseValue_number (fuel n : Nat) {text : List Char} (h : Follows text) :
    parseValue (fuel + 1) (Nat.toDigits 10 n ++ text) = some (.number n, text) := by
  obtain ⟨d,hd,tail,heq⟩ := toDigits_cons n
  have hopens := opens_digitChar d hd
  have hall : ∀ d < 10, Nat.digitChar d ≠ '"' ∧ Nat.digitChar d ≠ '[' ∧
      Nat.digitChar d ≠ '{' := by decide
  obtain ⟨hquote,hbracket,hbrace⟩ := hall d hd
  have hnumber := parseNumber_toDigits n h
  rw [heq, List.cons_append] at hnumber ⊢
  rw [parseValue, skipSpaces_cons _ hopens.space]
  simp only
  rw [if_neg hquote, if_neg hbracket, if_neg hbrace, parseLiteral_number hd, hnumber]

mutual

theorem parseValue_print (value : Json) (fuel : Nat) (text : List Char)
    (hfuel : (print value).length ≤ fuel) (h : Follows text) :
    parseValue fuel (print value ++ text) = some (value, text) := by
  obtain ⟨fuel,rfl⟩ : ∃ n, fuel = n + 1 :=
    Nat.exists_eq_succ_of_ne_zero (by have := print_length_pos value; omega)
  match value with
  | .null => rfl
  | .bool true => rfl
  | .bool false => rfl
  | .number n => exact parseValue_number fuel n h
  | .real => exact parseNumber_real h
  | .string s =>
    change ((parseText .plain ((s.toList.flatMap escape ++ ['"']) ++ text)).map _) = _
    rw [List.append_assoc, List.singleton_append, parseText_quoted, Option.map_some,
      String.ofList_toList]
  | .array items =>
    have hitems := parseItems_print items true fuel text (by
      simp only [print, List.length_cons] at hfuel
      omega)
    change ((parseItems fuel true (printItems true items ++ text)).map _) = _
    rw [hitems]
    rfl
  | .object members =>
    have hmembers := parseMembers_print members true fuel text (by
      simp only [print, List.length_cons] at hfuel
      omega)
    change ((parseMembers fuel true (printMembers true members ++ text)).map _) = _
    rw [hmembers]
    rfl

theorem parseItems_print (items : List Json) (first : Bool) (fuel : Nat) (text : List Char)
    (hfuel : (printItems first items).length ≤ fuel) :
    parseItems fuel first (printItems first items ++ text) = some (items, text) := by
  match items with
  | [] =>
    obtain ⟨fuel,rfl⟩ : ∃ n, fuel = n + 1 :=
      Nat.exists_eq_succ_of_ne_zero (by rintro rfl; cases hfuel)
    rfl
  | item :: rest =>
    simp only [printItems, List.length_append] at hfuel
    have hpos := print_length_pos item
    have hrest : 0 < (printItems false rest).length := by
      cases rest <;> simp [printItems, separator]
    obtain ⟨fuel,rfl⟩ : ∃ n, fuel = n + 1 := Nat.exists_eq_succ_of_ne_zero (by omega)
    have hitem := parseValue_print item fuel (printItems false rest ++ text) (by omega)
      (follows_printItems rest text)
    have htail := parseItems_print rest false fuel text (by omega)
    obtain ⟨c,tail,heq,hc⟩ := separator_print first item (printItems false rest ++ text)
    have hsplit : printItems first (item :: rest) ++ text = c :: tail := by
      rw [← heq]
      simp only [printItems, List.append_assoc]
    rw [hsplit, parseItems, skipSpaces_cons _ hc.space]
    simp only
    rw [if_neg hc.bracket, ← heq, parseSeparator_append, Option.bind_some, hitem,
      Option.bind_some, htail, Option.map_some]

theorem parseMembers_print (members : List (String × Json)) (first : Bool) (fuel : Nat)
    (text : List Char) (hfuel : (printMembers first members).length ≤ fuel) :
    parseMembers fuel first (printMembers first members ++ text) = some (members, text) := by
  match members with
  | [] =>
    obtain ⟨fuel,rfl⟩ : ∃ n, fuel = n + 1 :=
      Nat.exists_eq_succ_of_ne_zero (by rintro rfl; cases hfuel)
    rfl
  | (key, value) :: rest =>
    simp only [printMembers, List.length_append, List.length_cons] at hfuel
    have hrest : 0 < (printMembers false rest).length := by
      cases rest <;> simp [printMembers, separator]
    obtain ⟨fuel,rfl⟩ : ∃ n, fuel = n + 1 := Nat.exists_eq_succ_of_ne_zero (by omega)
    have hvalue := parseValue_print value fuel (printMembers false rest ++ text) (by omega)
      (follows_printMembers rest text)
    have htail := parseMembers_print rest false fuel text (by omega)
    have hkey := parseKey_quote key (print value ++ (printMembers false rest ++ text))
    have hsplit : printMembers first ((key, value) :: rest) ++ text =
        separator first ++
          (quote key ++ ':' :: (print value ++ (printMembers false rest ++ text))) := by
      simp only [printMembers, List.append_assoc, List.cons_append]
    obtain ⟨c,tail,heq,hc⟩ : ∃ c tail, separator first ++
        (quote key ++ ':' :: (print value ++ (printMembers false rest ++ text))) = c :: tail ∧
        Opens c := by
      cases first <;> exact ⟨_,_,rfl,by decide,by decide,by decide⟩
    rw [hsplit, heq, parseMembers, skipSpaces_cons _ hc.space]
    simp only
    rw [if_neg hc.brace, ← heq, parseSeparator_append, Option.bind_some, hkey, Option.bind_some,
      hvalue, Option.bind_some, htail, Option.map_some]

end

theorem parse_print (value : Json) : parse (print value) = some value := by
  have hvalue := parseValue_print value ((print value).length + 1) [] (by omega) follows_nil
  rw [List.append_nil] at hvalue
  rw [parse, hvalue]
  rfl

def Printable (text : List Char) : Prop := ∀ c ∈ text, 32 ≤ c.toNat

theorem printable_append {front back : List Char} (hf : Printable front) (hb : Printable back) :
    Printable (front ++ back) :=
  List.forall_mem_append.mpr ⟨hf,hb⟩

theorem printable_cons {c : Char} {text : List Char} (hc : 32 ≤ c.toNat) (ht : Printable text) :
    Printable (c :: text) :=
  List.forall_mem_cons.mpr ⟨hc,ht⟩

theorem separator_printable (first : Bool) : Printable (separator first) := by
  cases first <;> simp [Printable, separator]

theorem toDigits_printable (n : Nat) : Printable (Nat.toDigits 10 n) := by
  intro c hc
  have hall : ∀ d < 10, 32 ≤ (Nat.digitChar d).toNat := by decide
  obtain ⟨d,hd,rfl⟩ := Numeral.mem_toDigits (by decide) hc
  exact hall d hd

mutual

theorem print_printable (value : Json) : Printable (print value) := by
  match value with
  | .null => simp [Printable, print]
  | .bool true => simp [Printable, print]
  | .bool false => simp [Printable, print]
  | .number n => exact toDigits_printable n
  | .real => simp [Printable, print]
  | .string s => exact fun c hc => quote_printable hc
  | .array items => exact printable_cons (by decide) (printItems_printable items true)
  | .object members => exact printable_cons (by decide) (printMembers_printable members true)

theorem printItems_printable (items : List Json) (first : Bool) :
    Printable (printItems first items) := by
  match items with
  | [] => simp [Printable, printItems]
  | item :: rest =>
    exact printable_append (separator_printable first)
      (printable_append (print_printable item) (printItems_printable rest false))

theorem printMembers_printable (members : List (String × Json)) (first : Bool) :
    Printable (printMembers first members) := by
  match members with
  | [] => simp [Printable, printMembers]
  | (key, value) :: rest =>
    have hvalue := printable_append (print_printable value) (printMembers_printable rest false)
    exact printable_append (separator_printable first)
      (printable_append (fun c hc => quote_printable hc) (printable_cons (by decide) hvalue))

end

end Json
