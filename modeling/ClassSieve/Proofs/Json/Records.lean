import ClassSieve.Json

/-!
# Reading records

A record that is written with its fields in order, each of them once, is read field by field. So
reading undoes writing for a record when it does for the fields.
-/
namespace ClassSieve.Json

theorem unique?_of_mem {members : List (String × Json)} (hnodup : (members.map Prod.fst).Nodup)
    {member : String × Json} (h : member ∈ members) :
    unique? members member.1 = some (some member.2) := by
  have hfilter : (members.filter fun other => other.1 = member.1) = [member] := by
    induction members with
    | nil => cases h
    | cons first rest ih =>
      obtain ⟨hfirst, hrest⟩ := List.nodup_cons.1 hnodup
      rcases List.mem_cons.1 h with rfl | hmem
      · rw [List.filter_cons_of_pos (by simp), List.filter_eq_nil_iff.2]
        intro other hother heq
        apply hfirst
        rw [← of_decide_eq_true heq]
        exact List.mem_map_of_mem hother
      · rw [List.filter_cons_of_neg, ih hrest hmem]
        intro heq
        apply hfirst
        rw [of_decide_eq_true heq]
        exact List.mem_map_of_mem hmem
  rw [unique?, hfilter]

theorem record?_object {keys : List String} {members : List (String × Json)}
    (hkeys : members.map Prod.fst = keys) (h : keys.Nodup) :
    record? keys (object members) = some (members.map fun member => some member.2) := by
  subst hkeys
  have hread : ∀ read ⊆ members, (read.map Prod.fst).mapM (unique? members) =
      some (read.map fun member => some member.2) := by
    intro read hsubset
    induction read with
    | nil => rfl
    | cons member rest ih =>
      obtain ⟨hmember, hrest⟩ := List.cons_subset.1 hsubset
      rw [List.map_cons, List.mapM_cons, unique?_of_mem h hmember, ih hrest]
      rfl
  exact hread members (List.Subset.refl _)

theorem tagged?_object {tag : String} {members : List (String × Json)}
    (h : tag ∉ members.map Prod.fst) (read : Json → Option String) (kind : Json) :
    tagged? tag read (object ((tag, kind) :: members)) =
      (read kind).map fun name => (name, object members) := by
  have hother : ∀ member ∈ members, member.1 ≠ tag := by
    rintro member hmember rfl
    exact h (List.mem_map_of_mem hmember)
  have hunique : unique? ((tag, kind) :: members) tag = some (some kind) := by
    rw [unique?, List.filter_cons_of_pos (by simp), List.filter_eq_nil_iff.2]
    intro member hmember heq
    exact hother member hmember (of_decide_eq_true heq)
  have hrest : ((tag, kind) :: members).filter (fun member => member.1 ≠ tag) = members := by
    rw [List.filter_cons_of_neg (by simp), List.filter_eq_self]
    intro member hmember
    exact decide_eq_true (hother member hmember)
  rw [tagged?, hunique, hrest]
  change ((read kind).bind fun name => some (name, object members)) = _
  cases read kind <;> rfl

variable {α : Type} {read : Json → Option α} {write : α → Json}

theorem mapM_map_of_inverse {items : List α} (h : ∀ a ∈ items, read (write a) = some a) :
    (items.map write).mapM read = some items := by
  induction items with
  | nil => rfl
  | cons item rest ih =>
    rw [List.map_cons, List.mapM_cons, h item List.mem_cons_self,
      ih fun a ha => h a (List.mem_cons_of_mem _ ha)]
    rfl

theorem listOf?_map {items : List α} (h : ∀ a ∈ items, read (write a) = some a) :
    listOf? read (array (items.map write)) = some items :=
  mapM_map_of_inverse h

theorem listOf?_ofStrings (texts : List String) :
    listOf? string? (ofStrings texts) = some texts :=
  listOf?_map fun _ _ => rfl

theorem optionalField_ofOption (h : ∀ a, read (write a) = some a) (hnull : ∀ a, write a ≠ null)
    (option : Option α) :
    optionalField read (some (ofOption write option)) = some option := by
  cases option with
  | none => rfl
  | some a =>
    change nullable read (write a) = _
    rw [nullable]
    · rw [h]
      rfl
    · exact hnull a

theorem optionalField_string (text : Option String) :
    optionalField string? (some (ofOption string text)) = some text := by
  have hread : ∀ text, string? (string text) = some text := fun _ => rfl
  exact optionalField_ofOption hread (fun _ => nofun) text

theorem optionalField_natural (value : Option Nat) :
    optionalField natural? (some (ofOption natural value)) = some value := by
  have hread : ∀ value, natural? (natural value) = some value := fun _ => rfl
  exact optionalField_ofOption hread (fun _ => nofun) value

end ClassSieve.Json
