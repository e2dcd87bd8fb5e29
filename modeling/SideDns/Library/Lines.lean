import Mathlib.Data.List.TakeWhile

namespace Lines

def newline : UInt8 := 10

def carriageReturn : UInt8 := 13

def chomp (line : List UInt8) : List UInt8 :=
  if line.getLast? = some carriageReturn then line.dropLast else line

def nextLine (stream : List UInt8) : Option (List UInt8 × List UInt8) :=
  let line := stream.takeWhile (fun b => b != newline)
  match stream.dropWhile (fun b => b != newline) with
  | [] => if line = [] then none else some (line, [])
  | _ :: rest => some (chomp line, rest)

def linesFrom : Nat → List UInt8 → List (List UInt8)
  | 0, _ => []
  | fuel + 1, stream =>
    match nextLine stream with
    | none => []
    | some (line, rest) => line :: linesFrom fuel rest

def lines (stream : List UInt8) : List (List UInt8) := linesFrom stream.length stream

structure IsLine (line : List UInt8) : Prop where
  newline : newline ∉ line
  carriageReturn : line.getLast? ≠ some carriageReturn

theorem nextLine_shrinks {stream line rest : List UInt8}
    (h : nextLine stream = some (line, rest)) : rest.length < stream.length := by
  have hlen := congrArg List.length (List.takeWhile_append_dropWhile (l := stream)
    (p := fun b => b != Lines.newline))
  rw [List.length_append] at hlen
  simp only [nextLine] at h
  cases hdrop : stream.dropWhile (fun b => b != Lines.newline) with
  | nil =>
    rw [hdrop] at h hlen
    split_ifs at h with hline
    obtain rfl := (Prod.mk.inj (Option.some.inj h)).2
    have hpos := List.length_pos_iff.mpr hline
    simp only [List.length_nil] at hlen ⊢
    omega
  | cons b after =>
    rw [hdrop] at h hlen
    obtain rfl := (Prod.mk.inj (Option.some.inj h)).2
    rw [List.length_cons] at hlen
    omega

theorem linesFrom_enough {fuel : Nat} {stream : List UInt8} (h : stream.length ≤ fuel) :
    linesFrom fuel stream = lines stream := by
  induction fuel using Nat.strongRecOn generalizing stream with
  | ind fuel ih =>
    cases fuel with
    | zero =>
      obtain rfl := List.eq_nil_of_length_eq_zero (Nat.le_zero.mp h)
      rfl
    | succ fuel =>
      cases hnext : nextLine stream with
      | none =>
        rw [linesFrom, lines, hnext]
        cases hlen : stream.length with
        | zero => rfl
        | succ n => rw [linesFrom, hnext]
      | some p =>
        have hlt := nextLine_shrinks hnext
        obtain ⟨n,hn⟩ : ∃ n, stream.length = n + 1 := Nat.exists_eq_succ_of_ne_zero (by omega)
        rw [linesFrom, lines, hn, linesFrom, hnext]
        simp only
        rw [ih fuel (by omega) (by omega)]
        by_cases heq : n = fuel
        · rw [heq, ih fuel (by omega) (by omega)]
        · rw [ih n (by omega) (by omega)]

theorem chomp_of_isLine {line : List UInt8} (h : IsLine line) : chomp line = line :=
  if_neg h.carriageReturn

theorem nextLine_append {line : List UInt8} (rest : List UInt8) (h : IsLine line) :
    nextLine (line ++ (newline :: rest)) = some (line, rest) := by
  have hne : ∀ b ∈ line, (b != newline) = true := fun b hb => by
    simpa using fun heq : b = newline => h.newline (heq ▸ hb)
  rw [nextLine, List.takeWhile_append_of_pos hne, List.dropWhile_append_of_pos hne,
    List.takeWhile_cons_of_neg (by simp), List.dropWhile_cons_of_neg (by simp), List.append_nil]
  simp only
  rw [chomp_of_isLine h]

theorem lines_append {line : List UInt8} (rest : List UInt8) (h : IsLine line) :
    lines (line ++ (newline :: rest)) = line :: lines rest := by
  have hlen : (line ++ (newline :: rest)).length = (line.length + rest.length) + 1 := by
    rw [List.length_append, List.length_cons]
    omega
  rw [lines, hlen, linesFrom, nextLine_append rest h]
  simp only
  rw [linesFrom_enough (by omega)]

theorem lines_flatMap {α : Type} (payload : α → List UInt8) {l : List α}
    (h : ∀ a ∈ l, IsLine (payload a)) :
    lines (l.flatMap fun a => payload a ++ [newline]) = l.map payload := by
  induction l with
  | nil => rfl
  | cons a l ih =>
    obtain ⟨ha,hl⟩ := List.forall_mem_cons.mp h
    rw [List.flatMap_cons, List.append_assoc, List.singleton_append, lines_append _ ha, ih hl]
    rfl

theorem lines_of_nextLine {stream line rest : List UInt8}
    (h : nextLine stream = some (line, rest)) : lines stream = line :: lines rest := by
  have hlt := nextLine_shrinks h
  obtain ⟨n,hn⟩ : ∃ n, stream.length = n + 1 := Nat.exists_eq_succ_of_ne_zero (by omega)
  rw [lines, hn, linesFrom, h]
  simp only
  rw [linesFrom_enough (by omega)]

theorem lines_of_nextLine_none {stream : List UInt8} (h : nextLine stream = none) :
    lines stream = [] := by
  rw [lines]
  cases stream.length with
  | zero => rfl
  | succ n => rw [linesFrom, h]

theorem lines_nil : lines [] = [] := rfl

theorem nextLine_extend {stream : List UInt8} (more : List UInt8) (h : newline ∈ stream) :
    nextLine (stream ++ more) = (nextLine stream).map fun p => (p.1, p.2 ++ more) := by
  obtain ⟨front,back,rfl,hfront⟩ := List.eq_append_cons_of_mem h
  have hne : ∀ b ∈ front, (b != newline) = true := fun b hb => by
    simpa using fun heq : b = newline => hfront (heq ▸ hb)
  rw [List.append_assoc, List.cons_append]
  simp only [nextLine]
  rw [List.takeWhile_append_of_pos hne, List.takeWhile_append_of_pos hne,
    List.dropWhile_append_of_pos hne, List.dropWhile_append_of_pos hne,
    List.takeWhile_cons_of_neg (by simp), List.takeWhile_cons_of_neg (by simp),
    List.dropWhile_cons_of_neg (by simp), List.dropWhile_cons_of_neg (by simp)]
  rfl

theorem nextLine_unterminated {stream : List UInt8} (h : newline ∉ stream) (hne : stream ≠ []) :
    nextLine stream = some (stream, []) := by
  have hall : ∀ b ∈ stream, (b != newline) = true := fun b hb => by
    simpa using fun heq : b = newline => h (heq ▸ hb)
  have htake : stream.takeWhile (fun b => b != newline) = stream :=
    List.takeWhile_eq_self_iff.mpr hall
  have hdrop : stream.dropWhile (fun b => b != newline) = [] :=
    List.dropWhile_eq_nil_iff.mpr hall
  simp only [nextLine, htake, hdrop]
  rw [if_neg hne]

theorem lines_unterminated {stream : List UInt8} (h : newline ∉ stream) (hne : stream ≠ []) :
    lines stream = [stream] :=
  lines_of_nextLine (nextLine_unterminated h hne)

def arrived {α : Type} (payload : α → List UInt8) : Nat → List α → List α
  | _, [] => []
  | count, a :: l =>
      if count < (payload a).length then []
      else a :: arrived payload (count - ((payload a).length + 1)) l

theorem arrived_prefix {α : Type} (payload : α → List UInt8) (count : Nat) (l : List α) :
    arrived payload count l <+: l := by
  induction l generalizing count with
  | nil => exact List.prefix_rfl
  | cons a l ih =>
    rw [arrived]
    split_ifs
    · exact List.nil_prefix
    · exact (List.prefix_cons_inj a).mpr (ih _)

theorem arrived_map {α β : Type} (f : α → β) (payload : β → List UInt8) (count : Nat)
    (l : List α) : arrived payload count (l.map f) = (arrived (payload ∘ f) count l).map f := by
  induction l generalizing count with
  | nil => rfl
  | cons a l ih =>
    rw [List.map_cons, arrived, arrived, ih]
    simp only [Function.comp]
    split_ifs <;> rfl

theorem arrived_all {α : Type} {payload : α → List UInt8} {l : List α} {count : Nat}
    (h : (l.flatMap fun a => payload a ++ [newline]).length ≤ count) :
    arrived payload count l = l := by
  induction l generalizing count with
  | nil => rfl
  | cons a l ih =>
    rw [List.flatMap_cons, List.length_append, List.length_append, List.length_singleton] at h
    rw [arrived, if_neg (by omega), ih (by omega)]

theorem lines_take_flatMap {α : Type} {payload : α → List UInt8} {l : List α}
    (h : ∀ a ∈ l, IsLine (payload a) ∧ payload a ≠ []) (count : Nat) :
    ∃ torn, lines ((l.flatMap fun a => payload a ++ [newline]).take count) =
        (arrived payload count l).map payload ++ torn ∧
      (torn = [] ∨ ∃ a ∈ l, ∃ k < (payload a).length, torn = [(payload a).take k]) := by
  induction l generalizing count with
  | nil => exact ⟨[],by rw [List.flatMap_nil, List.take_nil]; rfl,Or.inl rfl⟩
  | cons a l ih =>
    obtain ⟨⟨hline,hne⟩,hl⟩ := List.forall_mem_cons.mp h
    rw [List.flatMap_cons, arrived, List.take_append, List.length_append, List.length_singleton]
    by_cases hcount : count < (payload a).length
    · have hback : count - ((payload a).length + 1) = 0 := by omega
      have hfront : (payload a ++ [newline]).take count = (payload a).take count :=
        List.take_append_of_le_length (by omega)
      rw [if_pos hcount, hback, hfront, List.take_zero, List.append_nil]
      have hclean : newline ∉ (payload a).take count :=
        fun hmem => hline.newline (List.mem_of_mem_take hmem)
      cases htake : (payload a).take count with
      | nil => exact ⟨[],rfl,Or.inl rfl⟩
      | cons b tail =>
        rw [htake] at hclean
        refine ⟨[b :: tail],lines_unterminated hclean (List.cons_ne_nil b tail),Or.inr ?_⟩
        exact ⟨a,List.mem_cons_self,count,hcount,by rw [htake]⟩
    · rw [if_neg hcount]
      obtain ⟨torn,htorn,hcase⟩ := ih hl (count - ((payload a).length + 1))
      refine ⟨torn,?_,hcase.imp_right fun ⟨b,hb,hk⟩ => ⟨b,List.mem_cons_of_mem a hb,hk⟩⟩
      by_cases hfull : count = (payload a).length
      · have hback : count - ((payload a).length + 1) = 0 := by omega
        rw [hback, List.take_zero, lines_nil] at htorn
        have hnil := List.append_eq_nil_iff.mp htorn.symm
        rw [hback, List.take_zero, List.append_nil, hfull, List.take_left' rfl,
          lines_unterminated hline.newline hne, List.map_cons, hnil.1, hnil.2]
        rfl
      · rw [List.take_of_length_le (by simp; omega), List.append_assoc, List.singleton_append,
          lines_append _ hline, htorn]
        rfl

end Lines
