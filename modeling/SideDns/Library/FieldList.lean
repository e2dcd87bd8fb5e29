import SideDns.Library.Utf8

namespace FieldList

def isBlank (c : Char) : Bool := c == ' ' || c == '\t'

def trim (part : List Char) : List Char := (part.dropWhile isBlank).rdropWhile isBlank

def elements (value : List Char) : List (List Char) := (value.splitOn ',').map trim

def Lists (option value : List Char) : Prop :=
  ∃ element ∈ elements value, element.map Char.toLower = option

instance (option value : List Char) : Decidable (Lists option value) :=
  inferInstanceAs (Decidable (∃ element ∈ elements value, element.map Char.toLower = option))

structure IsWord (option : List Char) : Prop where
  unseparated : ',' ∉ option
  unpadded : ∀ c ∈ option, isBlank c = false

theorem part_within {sep : List Char} {parts : List (List Char)} {part : List Char}
    (h : part ∈ parts) : part <:+: sep.intercalate parts := by
  induction parts with
  | nil => cases h
  | cons first parts ih =>
    cases parts with
    | nil =>
      obtain rfl := List.mem_singleton.mp h
      rw [List.intercalate_singleton]
    | cons next parts =>
      rw [List.intercalate_cons_cons]
      rcases List.mem_cons.mp h with rfl | h
      · rw [List.append_assoc]
        exact (List.prefix_append part _).isInfix
      · exact (ih h).trans (List.suffix_append _ _).isInfix

theorem trim_within (part : List Char) : trim part <:+: part :=
  (List.rdropWhile_prefix isBlank _).isInfix.trans (List.dropWhile_suffix isBlank).isInfix

theorem element_within {value element : List Char} (h : element ∈ elements value) :
    element <:+: value := by
  obtain ⟨part,hp,rfl⟩ := List.mem_map.mp h
  have hpart : part <:+: [','].intercalate (value.splitOn ',') := part_within hp
  rw [List.intercalate_splitOn] at hpart
  exact (trim_within part).trans hpart

theorem Lists.within {option value : List Char} (h : Lists option value) :
    option <:+: value.map Char.toLower := by
  obtain ⟨element,he,rfl⟩ := h
  exact (element_within he).map Char.toLower

theorem trim_of_unpadded {part : List Char} (h : ∀ c ∈ part, isBlank c = false) :
    trim part = part := by
  have hdrop : part.dropWhile isBlank = part := by
    rw [List.dropWhile_eq_self_iff]
    intro hlen
    simp [h _ (List.getElem_mem hlen)]
  rw [trim, hdrop, List.rdropWhile_eq_self_iff]
  intro hne
  simp [h _ (List.getLast_mem hne)]

theorem toLower_separator {c : Char} (h : c = ',' ∨ isBlank c = true) : c.toLower = c := by
  rw [isBlank, Bool.or_eq_true, beq_iff_eq, beq_iff_eq] at h
  rcases h with rfl | rfl | rfl <;> rfl

theorem IsWord.lists {option value : List Char} (hw : IsWord option)
    (h : value.map Char.toLower = option) : Lists option value := by
  have hmem {c : Char} (hc : c ∈ value) : c.toLower ∈ option := h ▸ List.mem_map_of_mem hc
  have hsep : ',' ∉ value := fun hc => hw.unseparated (hmem hc)
  have hpad : ∀ c ∈ value, isBlank c = false := by
    intro c hc
    by_contra hblank
    rw [Bool.not_eq_false] at hblank
    have hlow := hw.unpadded _ (hmem hc)
    rw [toLower_separator (.inr hblank), hblank] at hlow
    cases hlow
  have hone : elements value = [value] := by
    rw [elements, List.splitOn_eq_singleton hsep, List.map_singleton, trim_of_unpadded hpad]
  exact ⟨value,by rw [hone]; exact List.mem_singleton_self value,h⟩

end FieldList
