import ClassSieve.ClassName
import Mathlib.Data.List.Basic

/-!
# Names of archive entries

The class and the release that an entry is named for, and the entry that is named for them. Several
spellings of an entry can be named for the same class and release; the plain one among them is told
by the class and the release.
-/
namespace ClassSieve

namespace Text
variable {α : Type} {p : α → Bool}

theorem cutFirst_append_of_none {tail : List α} (htail : ∀ a ∈ tail, p a = false) (l : List α) :
    cutFirst p (l ++ tail) = (cutFirst p l).map fun parts => (parts.1, parts.2 ++ tail) := by
  induction l with
  | nil => exact cutFirst_eq_none_iff.2 htail
  | cons a rest ih =>
    by_cases ha : p a
    · simp [cutFirst, ha]
    · simp [cutFirst, ha, ih, Function.comp_def]

end Text

namespace ClassName
open Text

def toEntry (release : Option Nat) (name : String) : String :=
  let path := name.toList ++ classSuffix
  match release with
  | none => String.ofList path
  | some n => String.ofList (versionsDirectory ++ (Nat.toDigits 10 n ++ '/' :: path))

/-- Parts are separated by slashes, and a release is written in digits with no zero in front. -/
def IsPlain (entry : String) : Prop :=
  '\\' ∉ entry.toList ∧
    ∀ parts ∈ cutRelease entry.toList,
      (numeral? 0xFFFFFFFF parts.1).map (Nat.toDigits 10) = some parts.1

instance : DecidablePred IsPlain := fun _ => inferInstanceAs (Decidable (_ ∧ _))

variable {entry other name : String}

theorem IsPlain.entryPath (h : IsPlain entry) : entryPath entry = entry.toList := by
  rw [ClassName.entryPath]
  conv_rhs => rw [← List.map_id entry.toList]
  apply List.map_congr_left
  intro c hc
  rw [if_neg, id]
  rintro rfl
  exact h.1 hc

theorem cutRelease_eq_none {path : List Char} (h : ¬ versionsDirectory <+: path) :
    cutRelease path = none := by
  rw [cutRelease, Option.bind_eq_none_iff]
  intro rest hrest
  exact absurd ⟨rest, List.isPrefixOf?_eq_some_iff_append_eq.1 hrest⟩ h

theorem cutRelease_append (rest : List Char) :
    cutRelease (versionsDirectory ++ rest) = cutFirst (· = '/') rest := by
  rw [cutRelease, List.isPrefixOf?_eq_some_iff_append_eq.2 rfl, Option.bind_some]

theorem cutRelease_eq_some {path : List Char} {parts : List Char × List Char}
    (h : cutRelease path = some parts) :
    path = versionsDirectory ++ (parts.1 ++ '/' :: parts.2) := by
  obtain ⟨rest, hrest, hcut⟩ := Option.bind_eq_some_iff.1 h
  obtain ⟨slash, hslash, -, rfl⟩ := cutFirst_eq_some hcut
  rw [← of_decide_eq_true hslash]
  exact (List.isPrefixOf?_eq_some_iff_append_eq.1 hrest).symm

theorem isPrefix_of_isPrefix_append {stem : List Char}
    (h : versionsDirectory <+: stem ++ classSuffix) : versionsDirectory <+: stem := by
  obtain ⟨rest, hrest⟩ := h
  rcases List.append_eq_append_iff.1 hrest with ⟨middle, rfl, -⟩ | ⟨middle, hdirectory, hsuffix⟩
  · exact ⟨middle, rfl⟩
  · cases middle with
    | nil => exact ⟨[], by rw [hdirectory, List.append_nil, List.append_nil]⟩
    | cons c middle =>
      -- the directory would run into the dot
      have hdot : c = '.' := (List.cons.inj hsuffix).1.symm
      have hmem : c ∈ versionsDirectory := by simp [hdirectory]
      rw [hdot] at hmem
      exact absurd hmem (by decide)

theorem cutRelease_append_classSuffix (stem : List Char) :
    cutRelease (stem ++ classSuffix) =
      (cutRelease stem).map fun parts => (parts.1, parts.2 ++ classSuffix) := by
  by_cases hprefix : versionsDirectory <+: stem
  · obtain ⟨rest, rfl⟩ := hprefix
    rw [List.append_assoc, cutRelease_append, cutRelease_append]
    apply cutFirst_append_of_none
    intro c hc
    rw [decide_eq_false_iff_not]
    rintro rfl
    exact absurd hc (by decide)
  · rw [cutRelease_eq_none hprefix, cutRelease_eq_none (mt isPrefix_of_isPrefix_append hprefix)]
    rfl

theorem entryPath_of_ofEntry? (h : ofEntry? entry = some name) :
    (cutRelease (entryPath entry) = none ∧ entryPath entry = name.toList ++ classSuffix) ∨
      ∃ release, cutRelease (entryPath entry) = some (release, name.toList ++ classSuffix) := by
  have hname : ∀ base : List Char, (if base.isEmpty || base.getLast? = some '/' then none
      else some (String.ofList base)) = some name → name.toList = base := by
    intro base hbase
    split at hbase
    · cases hbase
    · cases hbase
      exact String.toList_ofList
  obtain ⟨stem, hstem, h⟩ := Option.bind_eq_some_iff.1 h
  rw [← List.isSuffixOf?_eq_some_iff_append_eq.1 hstem, cutRelease_append_classSuffix]
  split at h
  · obtain ⟨base, hbase, h⟩ := Option.bind_eq_some_iff.1 h
    obtain ⟨parts, hparts, rfl⟩ := Option.map_eq_some_iff.1 hbase
    exact Or.inr ⟨parts.1, by rw [hparts, hname _ h]; rfl⟩
  · next hprefix =>
    refine Or.inl ⟨?_, by rw [hname _ h]⟩
    rw [cutRelease_eq_none (mt List.isPrefixOf_iff_prefix.2 hprefix)]
    rfl

theorem toEntry_of_ofEntry? {release : Option Nat} (hplain : IsPlain entry)
    (h : ofEntry? entry = some name) (hrelease : releaseOfEntry? entry = release) :
    toEntry release name = entry := by
  have hcases := entryPath_of_ofEntry? h
  subst hrelease
  unfold releaseOfEntry?
  rw [hplain.entryPath] at hcases ⊢
  rcases hcases with ⟨hnone, hpath⟩ | ⟨release, hcut⟩
  · rw [hnone, Option.bind_none, toEntry, ← hpath, String.ofList_toList]
  · obtain ⟨n, hn, hdigits⟩ := Option.map_eq_some_iff.1 (hplain.2 _ hcut)
    rw [hcut, Option.bind_some, hn, toEntry, hdigits, ← cutRelease_eq_some hcut,
      String.ofList_toList]

theorem eq_of_isPlain (hplain : IsPlain entry) (hother : IsPlain other)
    (hentry : ofEntry? entry = some name) (hsame : ofEntry? other = some name)
    (hrelease : releaseOfEntry? entry = releaseOfEntry? other) : entry = other := by
  rw [← toEntry_of_ofEntry? hplain hentry hrelease, toEntry_of_ofEntry? hother hsame rfl]

end ClassName

end ClassSieve
