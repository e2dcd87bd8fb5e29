import Mathlib.Data.List.Nodup
import SideDns.Library.Json

namespace Serde

def asBool : Json → Option Bool
  | .bool value => some value
  | _ => none

def asString : Json → Option String
  | .string value => some value
  | _ => none

def asUnsigned (bits : Nat) : Json → Option Nat
  | .number value => if value < 2 ^ bits then some value else none
  | _ => none

def asOption {α : Type} (inner : Json → Option α) : Json → Option (Option α)
  | .null => some none
  | value => (inner value).map some

def asVec {α : Type} (inner : Json → Option α) : Json → Option (List α)
  | .array items => items.mapM inner
  | _ => none

def variantFields (names : List String) : Json → Option (String → Option Json)
  | .object members =>
      if ∀ name ∈ names, members.countP (fun member => member.1 == name) ≤ 1 then
        some fun name => members.lookup name
      else none
  | _ => none

def structFields (names : List String) : Json → Option (String → Option Json)
  | .array items =>
      if items.length = names.length then some fun name => (names.zip items).lookup name else none
  | json => variantFields names json

def tagOnly (tag name : String) : Json := .object [(tag, .string name)]

def adjacentContent (tag content name : String) (value : Json) : Json :=
  .object [(tag, .string name), (content, value)]

def adjacent (tag content : String) (json : Json) : Option (String × Option Json) :=
  (structFields [tag, content] json).bind fun get =>
    ((get tag).bind asString).map fun name => (name, get content)

def unitContent : Option Json → Option Unit
  | none => some ()
  | some .null => some ()
  | some _ => none

def optionContent {α : Type} (inner : Json → Option α) : Option Json → Option (Option α)
  | none => some none
  | some value => asOption inner value

def internalNewtype (tag name : String) (members : List (String × Json)) : Json :=
  .object ((tag, .string name) :: members)

def internal (tag : String) : Json → Option (String × Json)
  | .object members =>
      if members.countP (fun member => member.1 == tag) = 1 then
        ((members.lookup tag).bind asString).map fun name =>
          (name, .object (members.filter fun member => member.1 != tag))
      else none
  | .array (head :: items) => (asString head).map fun name => (name, .array items)
  | _ => none

theorem variantFields_object {names : List String} {members : List (String × Json)}
    (h : (members.map Prod.fst).Nodup) :
    variantFields names (.object members) = some fun name => members.lookup name := by
  refine if_pos fun name _ => ?_
  have hcount := List.nodup_iff_count_le_one.mp h name
  rwa [List.count, List.countP_map] at hcount

theorem structFields_object {names : List String} {members : List (String × Json)}
    (h : (members.map Prod.fst).Nodup) :
    structFields names (.object members) = some fun name => members.lookup name :=
  variantFields_object h

theorem adjacent_tagOnly {tag content : String} (h : content ≠ tag) (name : String) :
    adjacent tag content (tagOnly tag name) = some (name, none) := by
  have hlookup : List.lookup content [(tag, Json.string name)] = none := by
    rw [List.lookup_cons, beq_false_of_ne h]
    rfl
  rw [adjacent, tagOnly, structFields_object (by simp), Option.bind_some]
  simp only
  rw [List.lookup_cons_self, hlookup]
  rfl

theorem adjacent_content {tag content : String} (h : content ≠ tag) (name : String)
    (value : Json) :
    adjacent tag content (adjacentContent tag content name value) = some (name, some value) := by
  have hlookup : List.lookup content [(tag, Json.string name), (content, value)] = some value := by
    rw [List.lookup_cons, beq_false_of_ne h]
    exact List.lookup_cons_self
  rw [adjacent, adjacentContent, structFields_object (by simp [Ne.symm h]), Option.bind_some]
  simp only
  rw [List.lookup_cons_self, hlookup]
  rfl

theorem internal_newtype {tag : String} {members : List (String × Json)}
    (h : tag ∉ members.map Prod.fst) (name : String) :
    internal tag (internalNewtype tag name members) = some (name, .object members) := by
  have hne : ∀ member ∈ members, member.1 ≠ tag := fun member hm heq =>
    h (heq ▸ List.mem_map_of_mem hm)
  have hcount : members.countP (fun member => member.1 == tag) = 0 :=
    List.countP_eq_zero.mpr fun member hm => by simp [hne member hm]
  have hfilter : members.filter (fun member => member.1 != tag) = members :=
    List.filter_eq_self.mpr fun member hm => by simp [hne member hm]
  have hone : ((tag, Json.string name) :: members).countP (fun member => member.1 == tag) = 1 := by
    rw [List.countP_cons_of_pos (by simp), hcount]
  rw [internalNewtype, internal, if_pos hone, List.lookup_cons_self,
    List.filter_cons_of_neg (by simp), hfilter]
  rfl

theorem internal_tagOnly (tag name : String) :
    internal tag (tagOnly tag name) = some (name, .object []) :=
  internal_newtype (by simp) name

theorem asVec_map {α : Type} {encode : α → Json} {decode : Json → Option α} {l : List α}
    (h : ∀ a ∈ l, decode (encode a) = some a) : asVec decode (.array (l.map encode)) = some l := by
  rw [asVec]
  induction l with
  | nil => rfl
  | cons a l ih =>
    obtain ⟨ha,hl⟩ := List.forall_mem_cons.mp h
    rw [List.map_cons, List.mapM_cons, ha, ih hl]
    rfl

end Serde
