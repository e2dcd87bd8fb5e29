import SideDns.Library.Utf8

namespace SideDns

inductive SocketAddr where
  | v4 (ip : BitVec 32) (port : UInt16)
  | v6 (ip : BitVec 128) (port : UInt16) (flowinfo scopeId : UInt32)
  deriving DecidableEq, Repr

structure DnsRule where
  domain : String
  target : SocketAddr
  https : Bool
  deriving DecidableEq, Repr

def patternIsWildcard (pattern : String) : Bool := (Utf8.stripPrefix pattern "*.").isSome

def patternMatches (pattern domain : String) : Bool :=
  match Utf8.stripPrefix pattern "*." with
  | some suffix =>
      Utf8.endsWith domain suffix &&
      decide (Utf8.len domain > Utf8.len suffix) &&
      (Utf8.bytes domain)[Utf8.len domain - Utf8.len suffix - 1]? == some '.'.toUInt8
  | none => pattern == domain

def DnsRule.isWildcard (rule : DnsRule) : Bool := patternIsWildcard rule.domain

def DnsRule.matches (rule : DnsRule) (domain : String) : Bool := patternMatches rule.domain domain

theorem patternMatches_exact {pattern : String} (h : patternIsWildcard pattern = false)
    (domain : String) : patternMatches pattern domain = (pattern == domain) := by
  simp only [patternIsWildcard, Option.isSome_eq_false_iff, Option.isNone_iff_eq_none] at h
  simp only [patternMatches, h]

theorem DnsRule.matches_exact {rule : DnsRule} (h : rule.isWildcard = false) (domain : String) :
    rule.matches domain = (rule.domain == domain) :=
  patternMatches_exact h domain

theorem patternMatches_wildcard (suffix domain : String) :
    patternMatches ("*." ++ suffix) domain = true ↔
      ∃ front, domain = front ++ ("." ++ suffix) := by
  have hdot : Utf8.bytes "." = ['.'.toUInt8] := by decide
  rw [patternMatches, Utf8.stripPrefix_append]
  simp only [Bool.and_eq_true, decide_eq_true_eq, beq_iff_eq]
  constructor
  · rintro ⟨⟨hend,hlen⟩,hat⟩
    rw [Utf8.endsWith, List.isSuffixOf_iff_suffix] at hend
    obtain ⟨pre,hpre⟩ := hend
    have hne : pre ≠ [] := by
      rintro rfl
      rw [Utf8.bytes_injective hpre] at hlen
      exact Nat.lt_irrefl _ hlen
    rw [Utf8.getElem?_before_suffix hpre hne, List.getLast?_eq_some_iff] at hat
    obtain ⟨init,rfl⟩ := hat
    rw [← Utf8.endsWith_iff, Utf8.endsWith, List.isSuffixOf_iff_suffix, Utf8.bytes_append, hdot]
    exact ⟨init,by rw [← hpre, List.append_assoc]⟩
  · rintro ⟨front,rfl⟩
    have hbytes : (Utf8.bytes front ++ ['.'.toUInt8]) ++ Utf8.bytes suffix =
        Utf8.bytes (front ++ ("." ++ suffix)) := by
      rw [Utf8.bytes_append, Utf8.bytes_append, hdot, List.append_assoc]
    have hsize := congrArg List.length hbytes
    rw [List.length_append, List.length_append, List.length_singleton, Utf8.length_bytes suffix,
      Utf8.length_bytes (front ++ _)] at hsize
    refine ⟨⟨?_,by omega⟩,?_⟩
    · exact (Utf8.endsWith_iff _ _).mpr ⟨front ++ ".",String.append_assoc.symm⟩
    · rw [Utf8.getElem?_before_suffix hbytes (by simp), List.getLast?_concat]

example : patternMatches "*.local" "a.b.local" = true := by decide

example : patternMatches "*.local" "local" = false := by decide

example : patternMatches "*.local" "notlocal" = false := by decide

end SideDns
