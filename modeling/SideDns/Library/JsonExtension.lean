import SideDns.Library.Json

theorem Numeral.span_extend {radix : Nat} {text : List Char} (more : List Char)
    (h : (span radix text).2 ≠ []) :
    span radix (text ++ more) = ((span radix text).1, (span radix text).2 ++ more) := by
  simp only [span] at h ⊢
  have htake : (text.takeWhile (isDigit radix)).length ≠ text.length := by
    intro hlen
    have hsplit := congrArg List.length (List.takeWhile_append_dropWhile (l := text)
      (p := isDigit radix))
    rw [List.length_append, hlen] at hsplit
    exact h (List.length_eq_zero_iff.mp (by omega))
  rw [List.takeWhile_append, if_neg htake, List.dropWhile_append, if_neg (by simpa using h)]

namespace Json

theorem skipSpaces_extend {text : List Char} {c : Char} {rest : List Char} (more : List Char)
    (h : skipSpaces text = c :: rest) : skipSpaces (text ++ more) = c :: (rest ++ more) := by
  rw [skipSpaces, List.dropWhile_append]
  rw [skipSpaces] at h
  rw [h]
  rfl

theorem parseText_extend {state : TextState} {text s rest : List Char} (more : List Char)
    (h : parseText state text = some (s, rest)) :
    parseText state (text ++ more) = some (s, rest ++ more) := by
  induction text generalizing state s with
  | nil => cases h
  | cons c tail ih =>
    have hplain : ∀ d, ((parseText .plain tail).map fun p => (d :: p.1, p.2)) = some (s, rest) →
        ((parseText .plain (tail ++ more)).map fun p => (d :: p.1, p.2)) =
          some (s, rest ++ more) := by
      intro d hd
      obtain ⟨⟨inner,after⟩,hinner,heq⟩ := Option.map_eq_some_iff.mp hd
      obtain ⟨rfl,rfl⟩ := Prod.mk.inj heq
      rw [ih hinner]
      rfl
    rw [List.cons_append]
    cases state with
    | plain =>
      rw [parseText] at h ⊢
      split_ifs at h ⊢
      · obtain ⟨rfl,rfl⟩ := Prod.mk.inj (Option.some.inj h)
        rfl
      · exact ih h
      · exact hplain c h
    | escaped =>
      rw [parseText] at h ⊢
      split_ifs at h ⊢
      · exact ih h
      · obtain ⟨d,hd,htail⟩ := Option.bind_eq_some_iff.mp h
        rw [hd, Option.bind_some]
        exact hplain d htail
    | code left value high =>
      cases left with
      | zero =>
        rw [parseText] at h ⊢
        obtain ⟨v,hv,hunit⟩ := Option.bind_eq_some_iff.mp h
        rw [hv, Option.bind_some]
        cases hcode : codeUnit high (value * 16 + v) with
        | char d =>
          simp only [hcode] at hunit ⊢
          exact hplain d hunit
        | leading high =>
          simp only [hcode] at hunit ⊢
          exact ih hunit
        | lone =>
          simp only [hcode] at hunit
          cases hunit
      | succ left =>
        rw [parseText] at h ⊢
        obtain ⟨v,hv,htail⟩ := Option.bind_eq_some_iff.mp h
        rw [hv, Option.bind_some]
        exact ih htail
    | paired high slash =>
      cases slash with
      | false | true =>
        rw [parseText] at h ⊢
        split_ifs at h ⊢
        exact ih h

theorem parseSeparator_extend {first : Bool} {text rest : List Char} (more : List Char)
    (h : parseSeparator first text = some rest) :
    parseSeparator first (text ++ more) = some (rest ++ more) := by
  cases first with
  | true =>
    obtain rfl := Option.some.inj h
    rfl
  | false =>
    cases text with
    | nil => cases h
    | cons c tail =>
      by_cases hc : c = ','
      · subst hc
        obtain rfl := Option.some.inj h
        rfl
      · rw [parseSeparator] at h
        · cases h
        · rintro after heq
          exact hc (List.cons.inj heq).1

theorem parseKey_extend {text rest : List Char} {key : String} (more : List Char)
    (h : parseKey text = some (key, rest)) :
    parseKey (text ++ more) = some (key, rest ++ more) := by
  rw [parseKey] at h ⊢
  cases hskip : skipSpaces text with
  | nil =>
    rw [hskip] at h
    cases h
  | cons c tail =>
    rw [hskip] at h
    rw [skipSpaces_extend more hskip]
    split at h
    · rename_i quoted heq
      obtain ⟨rfl,rfl⟩ := List.cons.inj heq
      obtain ⟨⟨s,after⟩,hs,hcolon⟩ := Option.bind_eq_some_iff.mp h
      simp only at hcolon ⊢
      rw [parseText_extend more hs, Option.bind_some]
      split at hcolon
      · rename_i value hvalue
        obtain ⟨rfl,rfl⟩ := Prod.mk.inj (Option.some.inj hcolon)
        simp only [skipSpaces_extend more hvalue]
      · cases hcolon
    · cases h

theorem parseDigits_extend {text rest : List Char} (more : List Char)
    (h : parseDigits text = some rest) (hrest : rest ≠ []) :
    parseDigits (text ++ more) = some (rest ++ more) := by
  rw [parseDigits] at h
  split_ifs at h with hnil
  obtain rfl := Option.some.inj h
  rw [parseDigits, Numeral.span_extend more hrest]
  exact if_neg hnil

theorem parseFraction_extend {text rest : List Char} (more : List Char)
    (h : parseFraction text = some rest) (hrest : rest ≠ []) :
    parseFraction (text ++ more) = some (rest ++ more) := by
  rw [parseFraction.eq_def] at h
  split at h
  · exact parseDigits_extend more h hrest
  · next hdot =>
    obtain rfl := Option.some.inj h
    rw [parseFraction]
    rintro after heq
    cases text with
    | nil => exact hrest rfl
    | cons c tail =>
      obtain rfl := (List.cons.inj heq).1
      exact hdot tail rfl

theorem skipSign_extend {text : List Char} (more : List Char) (h : text ≠ []) :
    skipSign (text ++ more) = skipSign text ++ more := by
  cases text with
  | nil => exact absurd rfl h
  | cons c tail =>
    by_cases hplus : c = '+'
    · subst hplus
      rfl
    · by_cases hminus : c = '-'
      · subst hminus
        rfl
      · have hkeep (after : List Char) : skipSign (c :: after) = c :: after := by
          rw [skipSign]
          · rintro rest heq
            exact hplus (List.cons.inj heq).1
          · rintro rest heq
            exact hminus (List.cons.inj heq).1
        rw [List.cons_append, hkeep, hkeep, List.cons_append]

theorem parseExponent_extend {text rest : List Char} (more : List Char)
    (h : parseExponent text = some rest) (hrest : rest ≠ []) :
    parseExponent (text ++ more) = some (rest ++ more) := by
  cases text with
  | nil =>
    obtain rfl := Option.some.inj h
    exact absurd rfl hrest
  | cons c tail =>
    rw [parseExponent] at h
    rw [List.cons_append, parseExponent]
    split_ifs at h ⊢
    · have htail : tail ≠ [] := by
        rintro rfl
        cases h
      rw [skipSign_extend more htail]
      exact parseDigits_extend more h hrest
    · obtain rfl := Option.some.inj h
      rfl

theorem parseUnsigned_extend {text rest : List Char} {value : Json} (more : List Char)
    (h : parseUnsigned text = some (value, rest)) (hrest : rest ≠ []) :
    parseUnsigned (text ++ more) = some (value, rest ++ more) := by
  rw [parseUnsigned] at h
  split_ifs at h with hdigits
  obtain ⟨middle,hmiddle,h⟩ := Option.bind_eq_some_iff.mp h
  obtain ⟨after,hafter,heq⟩ := Option.map_eq_some_iff.mp h
  obtain ⟨rfl,rfl⟩ := Prod.mk.inj heq
  have hmid : middle ≠ [] := by
    rintro rfl
    obtain rfl := Option.some.inj hafter
    exact hrest rfl
  have hspan : (Numeral.span 10 text).2 ≠ [] := by
    intro hnil
    rw [hnil] at hmiddle
    obtain rfl := Option.some.inj hmiddle
    exact hmid rfl
  rw [parseUnsigned, Numeral.span_extend more hspan]
  simp only
  rw [if_neg hdigits, parseFraction_extend more hmiddle hmid, Option.bind_some,
    parseExponent_extend more hafter hrest, Option.map_some]
  simp only [List.append_left_inj]

theorem parseNumber_extend {text rest : List Char} {value : Json} (more : List Char)
    (h : parseNumber text = some (value, rest)) (hrest : rest ≠ []) :
    parseNumber (text ++ more) = some (value, rest ++ more) := by
  rw [parseNumber.eq_def] at h
  split at h
  · obtain ⟨⟨number,after⟩,hnumber,heq⟩ := Option.map_eq_some_iff.mp h
    obtain ⟨rfl,rfl⟩ := Prod.mk.inj heq
    rw [List.cons_append, parseNumber, parseUnsigned_extend more hnumber hrest]
    rfl
  · next hsign =>
    rw [parseNumber]
    · exact parseUnsigned_extend more h hrest
    · rintro after heq
      cases text with
      | nil => cases h
      | cons c tail =>
        obtain rfl := (List.cons.inj heq).1
        exact hsign tail rfl

theorem parseLiteral_number_extend {text : List Char} (more : List Char) (h : text ≠ [])
    (hn : ∀ c ∈ text.head?, c ≠ 'n' ∧ c ≠ 't' ∧ c ≠ 'f') :
    parseLiteral (text ++ more) = parseNumber (text ++ more) := by
  cases text with
  | nil => exact absurd rfl h
  | cons c tail =>
    obtain ⟨hnull,htrue,hfalse⟩ := hn c rfl
    rw [List.cons_append, parseLiteral]
    · rintro rest heq
      exact hnull (List.cons.inj heq).1
    · rintro rest heq
      exact htrue (List.cons.inj heq).1
    · rintro rest heq
      exact hfalse (List.cons.inj heq).1

theorem parseNumber_opens {text : List Char} {p : Json × List Char}
    (h : parseNumber text = some p) :
    text ≠ [] ∧ ∀ c ∈ text.head?, c ≠ 'n' ∧ c ≠ 't' ∧ c ≠ 'f' := by
  refine ⟨?_,?_⟩
  · rintro rfl
    cases h
  · cases text with
    | nil => cases h
    | cons c tail =>
      intro d hd
      obtain rfl := Option.some.inj hd
      refine ⟨?_,?_,?_⟩ <;>
        rintro rfl <;>
        exact absurd h (by simp [parseNumber, parseUnsigned, Numeral.span, Numeral.isDigit,
          Numeral.digitValue])

theorem parseLiteral_extend {text rest : List Char} {value : Json} (more : List Char)
    (h : parseLiteral text = some (value, rest)) (hrest : rest ≠ []) :
    parseLiteral (text ++ more) = some (value, rest ++ more) := by
  rw [parseLiteral.eq_def] at h
  split at h
  · obtain ⟨rfl,rfl⟩ := Prod.mk.inj (Option.some.inj h)
    rfl
  · obtain ⟨rfl,rfl⟩ := Prod.mk.inj (Option.some.inj h)
    rfl
  · obtain ⟨rfl,rfl⟩ := Prod.mk.inj (Option.some.inj h)
    rfl
  · obtain ⟨hne,hhead⟩ := parseNumber_opens h
    rw [parseLiteral_number_extend more hne hhead]
    exact parseNumber_extend more h hrest

structure Extends (fuel : Nat) : Prop where
  value : ∀ {fuel' text value rest} more, fuel ≤ fuel' →
    parseValue fuel text = some (value, rest) → rest ≠ [] →
    parseValue fuel' (text ++ more) = some (value, rest ++ more)
  items : ∀ {fuel' first text items rest} more, fuel ≤ fuel' →
    parseItems fuel first text = some (items, rest) →
    parseItems fuel' first (text ++ more) = some (items, rest ++ more)
  members : ∀ {fuel' first text members rest} more, fuel ≤ fuel' →
    parseMembers fuel first text = some (members, rest) →
    parseMembers fuel' first (text ++ more) = some (members, rest ++ more)

theorem parseItems_nonempty {fuel : Nat} {first : Bool} {text : List Char}
    {p : List Json × List Char} (h : parseItems fuel first text = some p) : text ≠ [] := by
  rintro rfl
  cases fuel <;> cases h

theorem parseMembers_nonempty {fuel : Nat} {first : Bool} {text : List Char}
    {p : List (String × Json) × List Char} (h : parseMembers fuel first text = some p) :
    text ≠ [] := by
  rintro rfl
  cases fuel <;> cases h

theorem Extends.value_succ {fuel fuel' : Nat} (ih : Extends fuel) {text rest : List Char}
    {value : Json} (more : List Char) (hle : fuel + 1 ≤ fuel')
    (h : parseValue (fuel + 1) text = some (value, rest)) (hrest : rest ≠ []) :
    parseValue fuel' (text ++ more) = some (value, rest ++ more) := by
  obtain ⟨fuel',rfl⟩ : ∃ n, fuel' = n + 1 := Nat.exists_eq_succ_of_ne_zero (by omega)
  have hle : fuel ≤ fuel' := Nat.le_of_succ_le_succ hle
  rw [parseValue] at h ⊢
  cases hskip : skipSpaces text with
  | nil =>
    rw [hskip] at h
    cases h
  | cons c tail =>
    rw [hskip] at h
    rw [skipSpaces_extend more hskip]
    simp only at h ⊢
    split_ifs at h ⊢
    · obtain ⟨⟨s,after⟩,hs,heq⟩ := Option.map_eq_some_iff.mp h
      obtain ⟨rfl,rfl⟩ := Prod.mk.inj heq
      rw [parseText_extend more hs]
      rfl
    · obtain ⟨⟨items,after⟩,hitems,heq⟩ := Option.map_eq_some_iff.mp h
      obtain ⟨rfl,rfl⟩ := Prod.mk.inj heq
      rw [ih.items more hle hitems]
      rfl
    · obtain ⟨⟨members,after⟩,hmembers,heq⟩ := Option.map_eq_some_iff.mp h
      obtain ⟨rfl,rfl⟩ := Prod.mk.inj heq
      rw [ih.members more hle hmembers]
      rfl
    · exact parseLiteral_extend more h hrest

theorem Extends.items_succ {fuel fuel' : Nat} (ih : Extends fuel) {first : Bool}
    {text rest : List Char} {items : List Json} (more : List Char) (hle : fuel + 1 ≤ fuel')
    (h : parseItems (fuel + 1) first text = some (items, rest)) :
    parseItems fuel' first (text ++ more) = some (items, rest ++ more) := by
  obtain ⟨fuel',rfl⟩ : ∃ n, fuel' = n + 1 := Nat.exists_eq_succ_of_ne_zero (by omega)
  have hle : fuel ≤ fuel' := Nat.le_of_succ_le_succ hle
  rw [parseItems] at h ⊢
  cases hskip : skipSpaces text with
  | nil =>
    rw [hskip] at h
    cases h
  | cons c tail =>
    rw [hskip] at h
    rw [skipSpaces_extend more hskip]
    simp only at h ⊢
    split_ifs at h ⊢
    · obtain ⟨rfl,rfl⟩ := Prod.mk.inj (Option.some.inj h)
      rfl
    · obtain ⟨start,hstart,h⟩ := Option.bind_eq_some_iff.mp h
      obtain ⟨⟨item,after⟩,hitem,h⟩ := Option.bind_eq_some_iff.mp h
      obtain ⟨⟨others,final⟩,hothers,heq⟩ := Option.map_eq_some_iff.mp h
      obtain ⟨rfl,rfl⟩ := Prod.mk.inj heq
      rw [← List.cons_append, parseSeparator_extend more hstart, Option.bind_some,
        ih.value more hle hitem (parseItems_nonempty hothers), Option.bind_some,
        ih.items more hle hothers]
      rfl

theorem Extends.members_succ {fuel fuel' : Nat} (ih : Extends fuel) {first : Bool}
    {text rest : List Char} {members : List (String × Json)} (more : List Char)
    (hle : fuel + 1 ≤ fuel')
    (h : parseMembers (fuel + 1) first text = some (members, rest)) :
    parseMembers fuel' first (text ++ more) = some (members, rest ++ more) := by
  obtain ⟨fuel',rfl⟩ : ∃ n, fuel' = n + 1 := Nat.exists_eq_succ_of_ne_zero (by omega)
  have hle : fuel ≤ fuel' := Nat.le_of_succ_le_succ hle
  rw [parseMembers] at h ⊢
  cases hskip : skipSpaces text with
  | nil =>
    rw [hskip] at h
    cases h
  | cons c tail =>
    rw [hskip] at h
    rw [skipSpaces_extend more hskip]
    simp only at h ⊢
    split_ifs at h ⊢
    · obtain ⟨rfl,rfl⟩ := Prod.mk.inj (Option.some.inj h)
      rfl
    · obtain ⟨start,hstart,h⟩ := Option.bind_eq_some_iff.mp h
      obtain ⟨⟨key,value⟩,hkey,h⟩ := Option.bind_eq_some_iff.mp h
      obtain ⟨⟨item,after⟩,hitem,h⟩ := Option.bind_eq_some_iff.mp h
      obtain ⟨⟨others,final⟩,hothers,heq⟩ := Option.map_eq_some_iff.mp h
      obtain ⟨rfl,rfl⟩ := Prod.mk.inj heq
      rw [← List.cons_append, parseSeparator_extend more hstart, Option.bind_some,
        parseKey_extend more hkey, Option.bind_some,
        ih.value more hle hitem (parseMembers_nonempty hothers), Option.bind_some,
        ih.members more hle hothers]
      rfl

theorem extends_all (fuel : Nat) : Extends fuel := by
  induction fuel with
  | zero =>
    refine ⟨?_,?_,?_⟩
    · intro _ _ _ _ _ _ h
      cases h
    · intro _ _ _ _ _ _ _ h
      cases h
    · intro _ _ _ _ _ _ _ h
      cases h
  | succ fuel ih => exact ⟨ih.value_succ,ih.items_succ,ih.members_succ⟩

theorem parse_print_truncated {members : List (String × Json)} {front back : List Char}
    (h : print (.object members) = front ++ back) (hback : back ≠ []) : parse front = none := by
  cases front with
  | nil => rfl
  | cons c front =>
    obtain ⟨rfl,htail⟩ := List.cons.inj h
    have hmembers : printMembers true members = front ++ back := htail
    by_contra hparse
    obtain ⟨value,hvalue⟩ := Option.ne_none_iff_exists'.mp hparse
    obtain ⟨⟨parsed,rest⟩,hparsed,-⟩ := Option.bind_eq_some_iff.mp hvalue
    rw [parseValue, skipSpaces_cons _ (by decide)] at hparsed
    simp only at hparsed
    rw [if_neg (by decide), if_neg (by decide), if_pos trivial] at hparsed
    obtain ⟨⟨read,after⟩,hread,-⟩ := Option.map_eq_some_iff.mp hparsed
    have hextend := (extends_all _).members back (Nat.le_add_right _ back.length) hread
    have hwhole := parseMembers_print members true (('{' :: front).length + back.length) [] (by
      have hlen := congrArg List.length hmembers
      simp only [List.length_append, List.length_cons] at hlen ⊢
      omega)
    rw [List.append_nil, hmembers, hextend] at hwhole
    obtain ⟨-,hnil⟩ := List.append_eq_nil_iff.mp (Prod.mk.inj (Option.some.inj hwhole)).2
    exact hback hnil

end Json
