import ClassSieve.Text.Cut

/-!
# Texts without blanks around them

Trimming a text finds the one part of it that neither begins nor ends with a blank and has blanks
alone around it.
-/
namespace ClassSieve.Text
variable {cs core : List Char}

def AllBlank (cs : List Char) : Prop := ∀ c ∈ cs, isBlank c = true

instance (cs : List Char) : Decidable (AllBlank cs) :=
  List.decidableBAll (isBlank · = true) cs

structure Trimmed (cs : List Char) : Prop where
  head : ∀ c ∈ cs.head?, isBlank c = false
  last : ∀ c ∈ cs.getLast?, isBlank c = false

theorem all_not_isBlank_iff (found : Option Char) :
    found.all (!isBlank ·) = true ↔ ∀ c ∈ found, isBlank c = false := by
  cases found <;> simp

theorem trimmed_iff_all : Trimmed cs ↔
    cs.head?.all (!isBlank ·) = true ∧ cs.getLast?.all (!isBlank ·) = true := by
  rw [all_not_isBlank_iff, all_not_isBlank_iff]
  exact ⟨fun h => ⟨h.head, h.last⟩, fun h => ⟨h.1, h.2⟩⟩

instance (cs : List Char) : Decidable (Trimmed cs) := decidable_of_iff _ trimmed_iff_all.symm

theorem AllBlank.not_mem (h : AllBlank cs) {c : Char} (hc : isBlank c = false) : c ∉ cs :=
  fun hmem => Bool.false_ne_true (hc.symm.trans (h c hmem))

theorem Trimmed.eq_nil_of_append {back : List Char} (h : Trimmed (cs ++ back))
    (hback : AllBlank back) : back = [] := by
  cases hlast : back.getLast? with
  | none => exact List.getLast?_eq_none_iff.1 hlast
  | some c =>
    have hkept : isBlank c = false := h.last c (by rw [List.getLast?_append, hlast]; rfl)
    exact absurd (List.mem_of_getLast? hlast) (hback.not_mem hkept)

theorem Trimmed.join {front middle back : List Char} (hfront : Trimmed front)
    (hfrontne : front ≠ []) (hback : Trimmed back) (hbackne : back ≠ []) :
    Trimmed (front ++ (middle ++ back)) where
  head c hc := by
    obtain ⟨d, rest, rfl⟩ := List.exists_cons_of_ne_nil hfrontne
    exact hfront.head c hc
  last c hc := by
    rw [← List.append_assoc, List.getLast?_append, List.getLast?_eq_some_getLast hbackne] at hc
    exact hback.last c (by rwa [List.getLast?_eq_some_getLast hbackne])

theorem head?_dropWhile_isBlank (cs : List Char) :
    ∀ c ∈ (cs.dropWhile isBlank).head?, isBlank c = false := by
  intro c hc
  have h := List.head?_dropWhile_not isBlank cs
  rw [Option.mem_def.1 hc] at h
  exact h

theorem exists_front (cs : List Char) :
    ∃ front, AllBlank front ∧ cs = front ++ cs.dropWhile isBlank := by
  refine ⟨cs.takeWhile isBlank, fun c hc => ?_, List.takeWhile_append_dropWhile.symm⟩
  exact List.all_eq_true.1 List.all_takeWhile c hc

theorem exists_back (cs : List Char) :
    ∃ back, AllBlank back ∧ cs = dropTrailing isBlank cs ++ back := by
  obtain ⟨front, hfront, hcs⟩ := exists_front cs.reverse
  refine ⟨front.reverse, fun c hc => hfront c (List.mem_reverse.1 hc), ?_⟩
  rw [dropTrailing, ← List.reverse_append, ← hcs, List.reverse_reverse]

theorem exists_eq_trimChars (cs : List Char) :
    ∃ front back, AllBlank front ∧ AllBlank back ∧ cs = front ++ trimChars cs ++ back := by
  obtain ⟨front, hfront, hcs⟩ := exists_front cs
  obtain ⟨back, hback, hrest⟩ := exists_back (cs.dropWhile isBlank)
  refine ⟨front, back, hfront, hback, ?_⟩
  rw [trimChars, List.append_assoc, ← hrest, ← hcs]

theorem trimmed_trimChars (cs : List Char) : Trimmed (trimChars cs) where
  head c hc := by
    obtain ⟨back, -, hrest⟩ := exists_back (cs.dropWhile isBlank)
    apply head?_dropWhile_isBlank cs c
    rw [hrest, Option.mem_def, List.head?_append, ← trimChars, Option.mem_def.1 hc]
    rfl
  last c hc := by
    rw [trimChars, dropTrailing, List.getLast?_reverse] at hc
    exact head?_dropWhile_isBlank _ c hc

theorem AllBlank.dropWhile_append (h : AllBlank cs) (more : List Char) :
    (cs ++ more).dropWhile isBlank = more.dropWhile isBlank :=
  List.dropWhile_append_of_pos h

theorem dropWhile_of_head (h : ∀ c ∈ cs.head?, isBlank c = false) :
    cs.dropWhile isBlank = cs := by
  cases cs with
  | nil => rfl
  | cons c cs => rw [List.dropWhile_cons_of_neg (by simp [h c rfl])]

theorem trimChars_eq_iff : trimChars cs = core ↔ Trimmed core ∧
    ∃ front back, AllBlank front ∧ AllBlank back ∧ cs = front ++ core ++ back := by
  constructor
  · rintro rfl
    exact ⟨trimmed_trimChars cs, exists_eq_trimChars cs⟩
  · rintro ⟨hcore, front, back, hfront, hback, rfl⟩
    have hreverse : AllBlank back.reverse := fun c hc => hback c (List.mem_reverse.1 hc)
    have hend : dropTrailing isBlank (core ++ back) = core := by
      have hlast : ∀ c ∈ core.reverse.head?, isBlank c = false := by
        rw [List.head?_reverse]
        exact hcore.last
      rw [dropTrailing, List.reverse_append, hreverse.dropWhile_append, dropWhile_of_head hlast,
        List.reverse_reverse]
    rw [trimChars, List.append_assoc, hfront.dropWhile_append]
    cases core with
    | nil =>
      have hnil : back.dropWhile isBlank = [] := by
        rw [← List.append_nil back, hback.dropWhile_append]
        rfl
      rw [List.nil_append, hnil]
      rfl
    | cons c rest =>
      have hhead : ∀ d ∈ (c :: rest ++ back).head?, isBlank d = false := hcore.head
      rw [dropWhile_of_head hhead, hend]

theorem Trimmed.exists_gap {value : List Char} (h : Trimmed (cs ++ value)) :
    ∃ gap, AllBlank gap ∧ value = gap ++ trimChars value := by
  obtain ⟨gap, back, hgap, hback, hvalue⟩ := exists_eq_trimChars value
  obtain rfl : back = [] := by
    rw [hvalue, ← List.append_assoc] at h
    exact h.eq_nil_of_append hback
  exact ⟨gap, hgap, by rwa [List.append_nil] at hvalue⟩

end ClassSieve.Text
