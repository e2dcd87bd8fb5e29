import Mathlib.Algebra.GroupWithZero.Nat
import Mathlib.Data.List.Basic
import Mathlib.Data.List.TakeWhile

namespace Numeral

def digitValue (c : Char) : Option Nat :=
  if '0' ≤ c ∧ c ≤ '9' then some (c.toNat - 48)
  else if 'a' ≤ c ∧ c ≤ 'f' then some (c.toNat - 87)
  else if 'A' ≤ c ∧ c ≤ 'F' then some (c.toNat - 55)
  else none

def isDigit (radix : Nat) (c : Char) : Bool := (digitValue c).any (fun d => d < radix)

def value (radix : Nat) (digits : List Char) : Nat :=
  digits.foldl (fun n c => n * radix + (digitValue c).getD 0) 0

def span (radix : Nat) (text : List Char) : List Char × List Char :=
  (text.takeWhile (isDigit radix), text.dropWhile (isDigit radix))

def Ends (radix : Nat) (text : List Char) : Prop := ∀ c ∈ text.head?, isDigit radix c = false

def compose (base : Nat) (parts : List Nat) : Nat := parts.foldl (fun n d => n * base + d) 0

def decompose (base : Nat) : Nat → Nat → List Nat
  | 0, _ => []
  | count + 1, n => decompose base count (n / base) ++ [n % base]

theorem digitValue_digitChar : ∀ d < 16, digitValue (Nat.digitChar d) = some d := by decide

section

variable {radix : Nat}

theorem ends_cons {c : Char} (text : List Char) (h : isDigit radix c = false) :
    Ends radix (c :: text) := by
  intro d hd
  obtain rfl := Option.some.inj hd
  exact h

theorem isDigit_digitChar {d : Nat} (hr : radix ≤ 16) (hd : d < radix) :
    isDigit radix (Nat.digitChar d) = true := by
  rw [isDigit, digitValue_digitChar d (by omega)]
  exact decide_eq_true hd

theorem mem_toDigits {n : Nat} {c : Char} (hb : 1 < radix) (h : c ∈ Nat.toDigits radix n) :
    ∃ d < radix, c = Nat.digitChar d := by
  induction n using Nat.strongRecOn with
  | ind n ih =>
    rw [Nat.toDigits_eq_if hb] at h
    split_ifs at h with hn
    · exact ⟨n,hn,List.mem_singleton.mp h⟩
    · rcases List.mem_append.mp h with h | h
      · exact ih (n / radix) (Nat.div_lt_self (by omega) hb) h
      · exact ⟨n % radix,Nat.mod_lt _ (by omega),List.mem_singleton.mp h⟩

theorem isDigit_of_mem_toDigits {n : Nat} {c : Char} (hb : 1 < radix) (hr : radix ≤ 16)
    (h : c ∈ Nat.toDigits radix n) : isDigit radix c = true := by
  obtain ⟨d,hd,rfl⟩ := mem_toDigits hb h
  exact isDigit_digitChar hr hd

theorem value_toDigits {n : Nat} (hb : 1 < radix) (hr : radix ≤ 16) :
    value radix (Nat.toDigits radix n) = n := by
  induction n using Nat.strongRecOn with
  | ind n ih =>
    rw [Nat.toDigits_eq_if hb]
    split_ifs with hn
    · change 0 * radix + (digitValue (Nat.digitChar n)).getD 0 = n
      rw [digitValue_digitChar n (by omega), Nat.zero_mul, Nat.zero_add]
      rfl
    · have hmod : n % radix < radix := Nat.mod_lt _ (by omega)
      have hquot := ih (n / radix) (Nat.div_lt_self (by omega) hb)
      rw [value] at hquot
      rw [value, List.foldl_append, hquot, List.foldl_cons, List.foldl_nil,
        digitValue_digitChar _ (by omega)]
      exact Nat.div_add_mod' n radix

theorem toDigits_head_zero {n : Nat} (hb : 1 < radix) (hr : radix ≤ 16)
    (h : (Nat.toDigits radix n).head? = some '0') : Nat.toDigits radix n = ['0'] := by
  induction n using Nat.strongRecOn with
  | ind n ih =>
    rw [Nat.toDigits_eq_if hb] at h ⊢
    split_ifs at h ⊢ with hn
    · exact congrArg (fun c => [c]) (Option.some.inj h)
    · have hlt : n / radix < n := Nat.div_lt_self (by omega) hb
      rw [List.head?_append_of_ne_nil _ Nat.toDigits_ne_nil] at h
      have hquot := congrArg (value radix) (ih _ hlt h)
      rw [value_toDigits hb hr] at hquot
      have hzero : value radix ['0'] = 0 := by
        simp [value, digitValue]
      rw [hzero, Nat.div_eq_zero_iff] at hquot
      omega

theorem span_append {digits rest : List Char} (hd : ∀ c ∈ digits, isDigit radix c = true)
    (hrest : Ends radix rest) : span radix (digits ++ rest) = (digits, rest) := by
  rw [span, List.takeWhile_append_of_pos hd, List.dropWhile_append_of_pos hd]
  cases rest with
  | nil => simp
  | cons c rest =>
    have hc : ¬isDigit radix c = true := by simp [hrest c rfl]
    rw [List.takeWhile_cons_of_neg hc, List.dropWhile_cons_of_neg hc, List.append_nil]

theorem span_toDigits {n : Nat} {rest : List Char} (hb : 1 < radix) (hr : radix ≤ 16)
    (hrest : Ends radix rest) :
    span radix (Nat.toDigits radix n ++ rest) = (Nat.toDigits radix n, rest) :=
  span_append (fun _ hc => isDigit_of_mem_toDigits hb hr hc) hrest

theorem length_decompose (base count n : Nat) : (decompose base count n).length = count := by
  induction count generalizing n with
  | zero => rfl
  | succ count ih => rw [decompose, List.length_append, ih, List.length_singleton]

theorem lt_of_mem_decompose {base count n d : Nat} (hb : 0 < base)
    (h : d ∈ decompose base count n) : d < base := by
  induction count generalizing n with
  | zero => cases h
  | succ count ih =>
    rcases List.mem_append.mp h with h | h
    · exact ih h
    · obtain rfl := List.mem_singleton.mp h
      exact Nat.mod_lt _ hb

theorem compose_decompose {base count n : Nat} (h : n < base ^ count) :
    compose base (decompose base count n) = n := by
  induction count generalizing n with
  | zero =>
    rw [Nat.pow_zero] at h
    change 0 = n
    omega
  | succ count ih =>
    have hquot : n / base < base ^ count := by
      rw [Nat.pow_succ] at h
      exact Nat.div_lt_of_lt_mul (by rwa [Nat.mul_comm])
    have hrec := ih hquot
    rw [compose] at hrec
    rw [compose, decompose, List.foldl_append, hrec]
    exact Nat.div_add_mod' n base

end

end Numeral
