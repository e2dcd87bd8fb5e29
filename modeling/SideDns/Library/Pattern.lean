import Mathlib.Computability.RegularExpressions

namespace Pattern

open RegularExpression (mul_rmatch_iff add_rmatch_iff one_rmatch_iff char_rmatch_iff)

variable {α : Type}

def oneOf : List α → RegularExpression α
  | [] => 0
  | a :: as => .char a + oneOf as

def sequence : List (List α) → RegularExpression α
  | [] => 1
  | as :: rest => oneOf as * sequence rest

def opt (p : RegularExpression α) : RegularExpression α := p + 1

def oneOrMore (p : RegularExpression α) : RegularExpression α := p * .star p

def exactly (p : RegularExpression α) : Nat → RegularExpression α
  | 0 => 1
  | n + 1 => p * exactly p n

def upTo (p : RegularExpression α) : Nat → RegularExpression α
  | 0 => 1
  | n + 1 => opt (p * upTo p n)

def between (p : RegularExpression α) (least most : Nat) : RegularExpression α :=
  exactly p least * upTo p (most - least)

theorem map_flatten_split {f : α → α} {parts : List (List α)} {l : List α}
    (h : l.map f = parts.flatten) :
    ∃ pieces : List (List α), l = pieces.flatten ∧ parts = pieces.map (List.map f) := by
  induction parts generalizing l with
  | nil => exact ⟨[],List.map_eq_nil_iff.mp h,rfl⟩
  | cons part parts ih =>
    obtain ⟨t,u,rfl,rfl,hu⟩ := List.map_eq_append_iff.mp h
    obtain ⟨pieces,rfl,rfl⟩ := ih hu
    exact ⟨t :: pieces,rfl,rfl⟩

variable [DecidableEq α]

theorem oneOf_rmatch_iff {as l : List α} :
    (oneOf as).rmatch l = true ↔ ∃ a ∈ as, l = [a] := by
  induction as with
  | nil => simp [oneOf]
  | cons a as ih =>
    rw [oneOf, add_rmatch_iff, char_rmatch_iff, ih]
    simp

theorem oneOf_mul_rmatch_iff {as l : List α} {p : RegularExpression α} :
    (oneOf as * p).rmatch l = true ↔ ∃ a ∈ as, ∃ rest, l = a :: rest ∧ p.rmatch rest = true := by
  rw [mul_rmatch_iff]
  constructor
  · rintro ⟨t,u,rfl,ht,hu⟩
    obtain ⟨a,ha,rfl⟩ := oneOf_rmatch_iff.mp ht
    exact ⟨a,ha,u,rfl,hu⟩
  · rintro ⟨a,ha,rest,rfl,hrest⟩
    exact ⟨[a],rest,rfl,oneOf_rmatch_iff.mpr ⟨a,ha,rfl⟩,hrest⟩

theorem opt_rmatch_iff {p : RegularExpression α} {l : List α} :
    (opt p).rmatch l = true ↔ p.rmatch l = true ∨ l = [] := by
  rw [opt, add_rmatch_iff, one_rmatch_iff]

theorem sequence_rmatch_iff {classes : List (List α)} {l : List α} :
    (sequence classes).rmatch l = true ↔ List.Forall₂ (fun a as => a ∈ as) l classes := by
  induction classes generalizing l with
  | nil => rw [sequence, one_rmatch_iff, List.forall₂_nil_right_iff]
  | cons as classes ih =>
    rw [sequence, oneOf_mul_rmatch_iff, List.forall₂_cons_right_iff]
    constructor
    · rintro ⟨a,ha,rest,rfl,hrest⟩
      exact ⟨a,rest,ha,ih.mp hrest,rfl⟩
    · rintro ⟨a,rest,ha,hrest,rfl⟩
      exact ⟨a,ha,rest,rfl,ih.mpr hrest⟩

theorem exactly_oneOf {as l : List α} {n : Nat} :
    (exactly (oneOf as) n).rmatch l = true ↔ l.length = n ∧ ∀ a ∈ l, a ∈ as := by
  induction n generalizing l with
  | zero =>
    rw [exactly, one_rmatch_iff, List.length_eq_zero_iff]
    constructor
    · rintro rfl
      exact ⟨rfl,by simp⟩
    · exact And.left
  | succ n ih =>
    rw [exactly, oneOf_mul_rmatch_iff]
    constructor
    · rintro ⟨a,ha,rest,rfl,hrest⟩
      obtain ⟨hlen,hall⟩ := ih.mp hrest
      exact ⟨by simp [hlen],List.forall_mem_cons.mpr ⟨ha,hall⟩⟩
    · rintro ⟨hlen,hall⟩
      obtain ⟨a,rest,rfl⟩ := List.exists_cons_of_length_eq_add_one hlen
      obtain ⟨ha,hrest⟩ := List.forall_mem_cons.mp hall
      exact ⟨a,ha,rest,rfl,ih.mpr ⟨by simpa using hlen,hrest⟩⟩

theorem upTo_oneOf {as l : List α} {n : Nat} :
    (upTo (oneOf as) n).rmatch l = true ↔ l.length ≤ n ∧ ∀ a ∈ l, a ∈ as := by
  induction n generalizing l with
  | zero =>
    rw [upTo, one_rmatch_iff, Nat.le_zero, List.length_eq_zero_iff]
    constructor
    · rintro rfl
      exact ⟨rfl,by simp⟩
    · exact And.left
  | succ n ih =>
    rw [upTo, opt_rmatch_iff, oneOf_mul_rmatch_iff]
    constructor
    · rintro (⟨a,ha,rest,rfl,hrest⟩ | rfl)
      · obtain ⟨hlen,hall⟩ := ih.mp hrest
        exact ⟨by simpa using hlen,List.forall_mem_cons.mpr ⟨ha,hall⟩⟩
      · exact ⟨Nat.zero_le _,by simp⟩
    · rintro ⟨hlen,hall⟩
      cases l with
      | nil => exact .inr rfl
      | cons a rest =>
        obtain ⟨ha,hrest⟩ := List.forall_mem_cons.mp hall
        exact .inl ⟨a,ha,rest,rfl,ih.mpr ⟨by simpa using hlen,hrest⟩⟩

theorem between_oneOf {as l : List α} {least most : Nat} (h : least ≤ most) :
    (between (oneOf as) least most).rmatch l = true ↔
      (least ≤ l.length ∧ l.length ≤ most) ∧ ∀ a ∈ l, a ∈ as := by
  rw [between, mul_rmatch_iff]
  constructor
  · rintro ⟨t,u,rfl,ht,hu⟩
    obtain ⟨htl,hta⟩ := exactly_oneOf.mp ht
    obtain ⟨hul,hua⟩ := upTo_oneOf.mp hu
    rw [List.length_append]
    refine ⟨by omega,?_⟩
    intro a ha
    exact (List.mem_append.mp ha).elim (hta a) (hua a)
  · rintro ⟨⟨hleast,hmost⟩,hall⟩
    refine ⟨l.take least,l.drop least,(List.take_append_drop least l).symm,?_,?_⟩
    · rw [exactly_oneOf, List.length_take]
      exact ⟨by omega,fun a ha => hall a (List.mem_of_mem_take ha)⟩
    · rw [upTo_oneOf, List.length_drop]
      exact ⟨by omega,fun a ha => hall a (List.mem_of_mem_drop ha)⟩

theorem oneOrMore_rmatch_iff {p : RegularExpression α} {l : List α} :
    (oneOrMore p).rmatch l = true ↔
      ∃ parts, parts ≠ [] ∧ l = parts.flatten ∧ ∀ part ∈ parts, p.rmatch part = true := by
  rw [oneOrMore, mul_rmatch_iff]
  constructor
  · rintro ⟨part,rest,rfl,hpart,hrest⟩
    obtain ⟨parts,rfl,hparts⟩ := (RegularExpression.star_rmatch_iff _ _).mp hrest
    refine ⟨part :: parts,by simp,by simp,?_⟩
    exact List.forall_mem_cons.mpr ⟨hpart,fun t ht => (hparts t ht).2⟩
  · rintro ⟨parts,hne,rfl,hparts⟩
    obtain ⟨part,rest,rfl⟩ := List.exists_cons_of_ne_nil hne
    obtain ⟨hpart,hrest⟩ := List.forall_mem_cons.mp hparts
    refine ⟨part,rest.flatten,rfl,hpart,?_⟩
    refine (RegularExpression.star_rmatch_iff _ _).mpr
      ⟨rest.filter (fun t => !t.isEmpty),List.flatten_filter_not_isEmpty.symm,?_⟩
    intro t ht
    obtain ⟨hmem,hnonempty⟩ := List.mem_filter.mp ht
    exact ⟨by simpa using hnonempty,hrest t hmem⟩

def Respects (f : α → α) (p : RegularExpression α) : Prop :=
  ∀ l, p.rmatch (l.map f) = true ↔ p.rmatch l = true

variable {f : α → α} {p q : RegularExpression α}

theorem respects_one : Respects f 1 := by
  intro l
  rw [one_rmatch_iff, one_rmatch_iff, List.map_eq_nil_iff]

theorem respects_oneOf {as : List α} (h : ∀ a, f a ∈ as ↔ a ∈ as) : Respects f (oneOf as) := by
  intro l
  rw [oneOf_rmatch_iff, oneOf_rmatch_iff]
  constructor
  · rintro ⟨a,ha,hl⟩
    obtain ⟨b,rfl,rfl⟩ := List.map_eq_singleton_iff.mp hl
    exact ⟨b,(h b).mp ha,rfl⟩
  · rintro ⟨a,ha,rfl⟩
    exact ⟨f a,(h a).mpr ha,rfl⟩

theorem Respects.add (hp : Respects f p) (hq : Respects f q) : Respects f (p + q) := by
  intro l
  rw [add_rmatch_iff, add_rmatch_iff, hp, hq]

theorem Respects.mul (hp : Respects f p) (hq : Respects f q) : Respects f (p * q) := by
  intro l
  rw [mul_rmatch_iff, mul_rmatch_iff]
  constructor
  · rintro ⟨t,u,hl,ht,hu⟩
    obtain ⟨t,u,rfl,rfl,rfl⟩ := List.map_eq_append_iff.mp hl
    exact ⟨t,u,rfl,(hp t).mp ht,(hq u).mp hu⟩
  · rintro ⟨t,u,rfl,ht,hu⟩
    exact ⟨t.map f,u.map f,List.map_append,(hp t).mpr ht,(hq u).mpr hu⟩

theorem Respects.star (hp : Respects f p) : Respects f (.star p) := by
  intro l
  rw [RegularExpression.star_rmatch_iff, RegularExpression.star_rmatch_iff]
  constructor
  · rintro ⟨parts,hl,hparts⟩
    obtain ⟨pieces,rfl,rfl⟩ := map_flatten_split hl
    refine ⟨pieces,rfl,fun t ht => ?_⟩
    obtain ⟨hne,hmatch⟩ := hparts _ (List.mem_map_of_mem ht)
    exact ⟨by simpa using hne,(hp t).mp hmatch⟩
  · rintro ⟨pieces,rfl,hpieces⟩
    refine ⟨pieces.map (List.map f),List.map_flatten,fun t ht => ?_⟩
    obtain ⟨piece,hpiece,rfl⟩ := List.mem_map.mp ht
    obtain ⟨hne,hmatch⟩ := hpieces piece hpiece
    exact ⟨by simpa using hne,(hp piece).mpr hmatch⟩

theorem Respects.opt (hp : Respects f p) : Respects f (opt p) := hp.add respects_one

theorem Respects.oneOrMore (hp : Respects f p) : Respects f (oneOrMore p) := hp.mul hp.star

theorem Respects.exactly (hp : Respects f p) (n : Nat) : Respects f (exactly p n) := by
  induction n with
  | zero => exact respects_one
  | succ n ih => exact hp.mul ih

theorem Respects.upTo (hp : Respects f p) (n : Nat) : Respects f (upTo p n) := by
  induction n with
  | zero => exact respects_one
  | succ n ih => exact (hp.mul ih).opt

theorem Respects.between (hp : Respects f p) (least most : Nat) :
    Respects f (between p least most) :=
  (hp.exactly least).mul (hp.upTo (most - least))

theorem respects_sequence {classes : List (List α)}
    (h : ∀ as ∈ classes, ∀ a, f a ∈ as ↔ a ∈ as) : Respects f (sequence classes) := by
  induction classes with
  | nil => exact respects_one
  | cons as classes ih =>
    obtain ⟨has,hclasses⟩ := List.forall_mem_cons.mp h
    exact (respects_oneOf has).mul (ih hclasses)

end Pattern
