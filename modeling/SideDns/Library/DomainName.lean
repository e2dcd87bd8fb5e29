import SideDns.Library.Utf8

structure DomainName where
  labels : List (List Char)
  nonempty : labels ≠ []
  separated : ∀ label ∈ labels, label ≠ [] ∧ '.' ∉ label
  deriving DecidableEq, Repr

namespace DomainName

def text (name : DomainName) : String := String.ofList (['.'].intercalate name.labels)

def split (text : String) : List (List Char) := Utf8.fields text '.'

def zone (text : String) : List (List Char) :=
  (split text).filter (fun label => !label.isEmpty)

def AtOrBelow (zone : List (List Char)) (name : DomainName) : Prop := zone <:+ name.labels

def StrictlyBelow (zone : List (List Char)) (name : DomainName) : Prop :=
  AtOrBelow zone name ∧ zone ≠ name.labels

instance (zone : List (List Char)) (name : DomainName) : Decidable (AtOrBelow zone name) :=
  inferInstanceAs (Decidable (_ <:+ _))

instance (zone : List (List Char)) (name : DomainName) : Decidable (StrictlyBelow zone name) :=
  inferInstanceAs (Decidable (_ ∧ _))

theorem split_append (front back : String) :
    split (front ++ ("." ++ back)) = split front ++ split back :=
  Utf8.fields_append front back '.'

theorem split_text (name : DomainName) : split name.text = name.labels := by
  rw [split, Utf8.fields, text, String.toList_ofList]
  exact List.splitOn_intercalate _ (fun label hl => (name.separated label hl).2) name.nonempty

theorem zone_text (name : DomainName) : zone name.text = name.labels := by
  rw [zone, split_text, List.filter_eq_self]
  intro label hl
  simpa using (name.separated label hl).1

theorem zone_append_dot (text : String) : zone (text ++ ".") = zone text := by
  have hsplit := split_append text ""
  rw [String.append_empty] at hsplit
  rw [zone, zone, hsplit, List.filter_append]
  have hlast : (split "").filter (fun label => !label.isEmpty) = [] := by decide
  rw [hlast, List.append_nil]

theorem text_injective {name other : DomainName} (h : name.text = other.text) :
    name = other := by
  have hlabels : name.labels = other.labels := by
    rw [← split_text, h, split_text]
  cases name
  cases other
  cases hlabels
  rfl

theorem atOrBelow_self (name : DomainName) : AtOrBelow (zone name.text) name := by
  rw [AtOrBelow, zone_text]

theorem labels_of_text_append {name parent : DomainName} {front : String}
    (h : name.text = front ++ ("." ++ parent.text)) :
    name.labels = split front ++ parent.labels := by
  rw [← split_text, h, split_append, split_text]

theorem strictlyBelow_of_text_append {name parent : DomainName} {front : String}
    (h : name.text = front ++ ("." ++ parent.text)) :
    StrictlyBelow (zone parent.text) name := by
  have hlabels := labels_of_text_append h
  rw [StrictlyBelow, AtOrBelow, zone_text, hlabels]
  refine ⟨List.suffix_append _ _,?_⟩
  intro heq
  have hlen := congrArg List.length heq
  have hpos := List.length_pos_of_ne_nil (List.splitOn_ne_nil '.' front.toList)
  rw [List.length_append, split, Utf8.fields] at hlen
  omega

theorem text_ne_append_dot (name : DomainName) (front : String) : name.text ≠ front ++ "." := by
  intro h
  have hsplit := split_append front ""
  rw [String.append_empty, ← h, split_text] at hsplit
  have hempty : [] ∈ name.labels := by
    rw [hsplit]
    exact List.mem_append_right _ (by decide)
  exact (name.separated [] hempty).1 rfl

theorem text_ne_dot_append (name : DomainName) (back : String) : name.text ≠ "." ++ back := by
  intro h
  have hsplit := split_append "" back
  rw [String.empty_append, ← h, split_text] at hsplit
  have hempty : [] ∈ name.labels := by
    rw [hsplit]
    exact List.mem_append_left _ (by decide)
  exact (name.separated [] hempty).1 rfl

theorem mem_intercalate {α : Type} {sep : List α} {parts : List (List α)} {a : α}
    (h : a ∈ sep.intercalate parts) : a ∈ sep ∨ ∃ part ∈ parts, a ∈ part := by
  induction parts with
  | nil => cases h
  | cons part parts ih =>
    cases parts with
    | nil =>
      rw [List.intercalate_singleton] at h
      exact .inr ⟨part,List.mem_cons_self,h⟩
    | cons next parts =>
      rw [List.intercalate_cons_cons] at h
      rcases List.mem_append.mp h with h | h
      · rcases List.mem_append.mp h with h | h
        · exact .inr ⟨part,List.mem_cons_self,h⟩
        · exact .inl h
      · rcases ih h with hs | ⟨other,ho,ha⟩
        · exact .inl hs
        · exact .inr ⟨other,List.mem_cons_of_mem part ho,ha⟩

theorem intercalate_concat {α : Type} (sep : List α) (parts : List (List α)) (last : List α) :
    sep.intercalate (parts ++ [last]) = (parts.map (fun part => part ++ sep)).flatten ++ last := by
  induction parts with
  | nil => exact List.intercalate_singleton
  | cons part parts ih =>
    rw [List.cons_append, List.intercalate_cons_of_ne_nil (by simp), ih, List.map_cons,
      List.flatten_cons]
    simp

theorem map_intercalate {α β : Type} (f : α → β) (sep : List α) (parts : List (List α)) :
    (sep.intercalate parts).map f = (sep.map f).intercalate (parts.map fun part => part.map f) := by
  induction parts with
  | nil => rfl
  | cons part parts ih =>
    cases parts with
    | nil => simp
    | cons next parts =>
      rw [List.intercalate_cons_cons, List.map_append, List.map_append, ih, List.map_cons,
        List.map_cons, List.map_cons, List.intercalate_cons_cons]

theorem mem_intercalate_of_mem {α : Type} {sep : List α} {parts : List (List α)}
    {part : List α} (hp : part ∈ parts) {a : α} (ha : a ∈ part) : a ∈ sep.intercalate parts := by
  induction parts with
  | nil => cases hp
  | cons next parts ih =>
    cases parts with
    | nil =>
      obtain rfl := List.mem_singleton.mp hp
      rwa [List.intercalate_singleton]
    | cons other parts =>
      rw [List.intercalate_cons_cons, List.mem_append, List.mem_append]
      rcases List.mem_cons.mp hp with rfl | hp
      · exact .inl (.inl ha)
      · exact .inr (ih hp)

theorem mem_text {name : DomainName} {c : Char} (h : c ∈ name.text.toList) :
    c = '.' ∨ ∃ label ∈ name.labels, c ∈ label := by
  rw [text, String.toList_ofList] at h
  rcases mem_intercalate h with hsep | hl
  · exact .inl (List.mem_singleton.mp hsep)
  · exact .inr hl

end DomainName
