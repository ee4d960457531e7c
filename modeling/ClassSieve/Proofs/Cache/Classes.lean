import Mathlib.Data.Finset.Card
import Mathlib.Data.List.Dedup
import ClassSieve.Proofs.Cache.Contents

/-!
# The classes that a cache holds

A cache holds a class when some table has a slot for it. As long as no key stands twice in a table,
the tables together are as long as the cache holds classes, and the list of last uses names each of
these classes once, with the stamp of its slot. Trimming drops the front of that list in the order
of the stamps: what is dropped was used no later than what is kept.
-/
namespace ClassSieve

namespace Table
variable {κ α : Type}

def keys (table : Table κ α) : List κ := table.map Prod.fst

theorem nodup_keys_filter {table : Table κ α} (h : table.keys.Nodup) (p : κ × α → Bool) :
    (Table.keys (table.filter p)).Nodup :=
  h.sublist (List.filter_sublist.map Prod.fst)

variable [DecidableEq κ]

theorem mem_of_get? {table : Table κ α} {key : κ} {value : α} (h : table.get? key = some value) :
    (key, value) ∈ table := by
  induction table with
  | nil => cases h
  | cons entry rest ih =>
    rw [get?_cons] at h
    split at h
    · next hkey =>
      cases h
      rw [← hkey]
      exact List.mem_cons_self
    · exact List.mem_cons_of_mem _ (ih h)

theorem get?_of_mem {table : Table κ α} (hdistinct : table.keys.Nodup) {entry : κ × α}
    (h : entry ∈ table) : table.get? entry.1 = some entry.2 := by
  induction table with
  | nil => cases h
  | cons first rest ih =>
    rw [keys, List.map_cons, List.nodup_cons] at hdistinct
    rw [get?_cons]
    rcases List.mem_cons.1 h with rfl | hrest
    · rw [if_pos rfl]
    · have hne : first.1 ≠ entry.1 := by
        intro heq
        apply hdistinct.1
        rw [heq]
        exact List.mem_map_of_mem hrest
      rw [if_neg hne]
      exact ih hdistinct.2 hrest

theorem mem_keys_set {table : Table κ α} {key other : κ} {value : α} :
    other ∈ (table.set key value).keys ↔ other = key ∨ other ∈ table.keys := by
  induction table with
  | nil => simp [set, keys]
  | cons entry rest ih =>
    by_cases hkey : entry.1 = key
    · simp [set, hkey, keys]
    · simp only [set, hkey, if_false, keys, List.map_cons, List.mem_cons] at ih ⊢
      rw [ih]
      tauto

theorem nodup_keys_set {table : Table κ α} (h : table.keys.Nodup) (key : κ) (value : α) :
    (table.set key value).keys.Nodup := by
  induction table with
  | nil => simp [set, keys]
  | cons entry rest ih =>
    rw [keys, List.map_cons, List.nodup_cons] at h
    by_cases hkey : entry.1 = key
    · simpa [set, hkey, keys] using h
    · simp only [set, hkey, if_false, keys, List.map_cons, List.nodup_cons]
      refine ⟨?_, ih h.2⟩
      intro hmem
      rcases mem_keys_set.1 hmem with heq | hrest
      · exact hkey heq
      · exact h.1 hrest

end Table

abbrev ClassKey := LoaderKey × String

namespace Cache

/-- No loader has two tables and no table two slots for one name. -/
structure Distinct (cache : Cache) : Prop where
  loaders : cache.tables.keys.Nodup
  names : ∀ {loader table}, cache.tables.get? loader = some table → table.keys.Nodup

def classes (cache : Cache) : Finset ClassKey := (cache.uses.map Prod.snd).toFinset

variable {cache : Cache}

theorem mem_uses (h : cache.Distinct) {lastUse : Nat} {loader : LoaderKey} {name : String} :
    (lastUse, loader, name) ∈ cache.uses ↔
      ∃ slot, cache.slot? loader name = some slot ∧ slot.lastUse = lastUse := by
  simp only [uses, List.mem_flatMap, List.mem_map, Prod.mk.injEq, Prod.exists]
  constructor
  · rintro ⟨_, table, htable, _, slot, hslot, huse, rfl, rfl⟩
    have hfound := Table.get?_of_mem h.loaders htable
    refine ⟨slot, ?_, huse⟩
    rw [slot?, hfound]
    exact Table.get?_of_mem (h.names hfound) hslot
  · rintro ⟨slot, hslot, huse⟩
    obtain ⟨table, htable, hname⟩ := Option.bind_eq_some_iff.1 hslot
    exact ⟨loader, table, Table.mem_of_get? htable, name, slot, Table.mem_of_get? hname, huse,
      rfl, rfl⟩

theorem mem_classes (h : cache.Distinct) {loader : LoaderKey} {name : String} :
    (loader, name) ∈ cache.classes ↔ (cache.slot? loader name).isSome := by
  rw [classes, List.mem_toFinset, List.mem_map, Option.isSome_iff_exists]
  constructor
  · rintro ⟨⟨lastUse, _, _⟩, huse, heq⟩
    cases heq
    obtain ⟨slot, hslot, -⟩ := (mem_uses h).1 huse
    exact ⟨slot, hslot⟩
  · rintro ⟨slot, hslot⟩
    exact ⟨_, (mem_uses h).2 ⟨slot, hslot, rfl⟩, rfl⟩

theorem key_eq_iff {loader other : LoaderKey} {name otherName : String} :
    ((other, otherName) : ClassKey) = (loader, name) ↔ loader = other ∧ name = otherName := by
  rw [eq_comm, Prod.mk.injEq]

theorem nodup_uses (h : cache.Distinct) : (cache.uses.map Prod.snd).Nodup := by
  have hflat : cache.uses.map Prod.snd =
      cache.tables.flatMap fun entry => entry.2.keys.map fun name => (entry.1, name) := by
    simp only [uses, List.map_flatMap, List.map_map, Table.keys]
    rfl
  rw [hflat, List.nodup_flatMap]
  constructor
  · intro entry hentry
    apply List.Nodup.map
    · intro a b hab
      cases hab
      rfl
    · exact h.names (Table.get?_of_mem h.loaders hentry)
  · have hloaders := h.loaders
    rw [Table.keys, List.Nodup, List.pairwise_map] at hloaders
    apply hloaders.imp
    intro a b hne key hfirst hsecond
    obtain ⟨_, -, rfl⟩ := List.mem_map.1 hfirst
    obtain ⟨_, -, heq⟩ := List.mem_map.1 hsecond
    exact hne (congrArg Prod.fst heq).symm

theorem length_uses (cache : Cache) : cache.uses.length = cache.size := by
  simp only [uses, size]
  induction cache.tables with
  | nil => rfl
  | cons entry rest ih =>
    rw [List.flatMap_cons, List.length_append, ih, List.length_map]
    rfl

theorem card_classes (h : cache.Distinct) : cache.classes.card = cache.size := by
  rw [classes, List.toFinset_card_of_nodup (nodup_uses h), List.length_map, length_uses]

/-! ## Changes of the tables -/

theorem Distinct.of_tables {other : Cache} (h : cache.Distinct)
    (htables : other.tables = cache.tables) : other.Distinct := by
  constructor
  · rw [htables]
    exact h.loaders
  · intro loader table
    rw [htables]
    exact h.names

theorem Distinct.set (h : cache.Distinct) (loader : LoaderKey) {table : ClassTable}
    (htable : table.keys.Nodup) :
    Distinct { cache with tables := cache.tables.set loader table } where
  loaders := Table.nodup_keys_set h.loaders _ _
  names hfound := by
    rw [Table.get?_set] at hfound
    split at hfound
    · cases hfound
      exact htable
    · exact h.names hfound

theorem Distinct.setSlot (h : cache.Distinct) (loader : LoaderKey) (name : String)
    (slot : CacheSlot) : (cache.setSlot loader name slot).Distinct := by
  apply h.set
  apply Table.nodup_keys_set
  cases htable : cache.tables.get? loader with
  | none => exact List.nodup_nil
  | some table => exact h.names htable

theorem Distinct.eraseSlot (h : cache.Distinct) (loader : LoaderKey) (name : String) :
    (cache.eraseSlot loader name).Distinct := by
  rw [Cache.eraseSlot]
  split
  · next htable => exact h.set loader (Table.nodup_keys_filter (h.names htable) _)
  · exact h

theorem classes_setSlot (h : cache.Distinct) (loader : LoaderKey) (name : String)
    (slot : CacheSlot) :
    (cache.setSlot loader name slot).classes = insert (loader, name) cache.classes := by
  ext ⟨other, otherName⟩
  rw [mem_classes (h.setSlot loader name slot), slot?_setSlot, Finset.mem_insert, mem_classes h,
    key_eq_iff]
  by_cases hkey : loader = other ∧ name = otherName
  · simp [hkey]
  · simp [hkey]

theorem classes_eraseSlot (h : cache.Distinct) (loader : LoaderKey) (name : String) :
    (cache.eraseSlot loader name).classes = cache.classes.erase (loader, name) := by
  ext ⟨other, otherName⟩
  rw [mem_classes (h.eraseSlot loader name), slot?_eraseSlot, Finset.mem_erase, mem_classes h,
    ne_eq, key_eq_iff]
  by_cases hkey : loader = other ∧ name = otherName
  · simp [hkey]
  · simp [hkey]

theorem Distinct.filter (h : cache.Distinct) (p : LoaderKey → Bool) :
    Distinct { cache with tables := cache.tables.filter fun entry => p entry.1 } where
  loaders := Table.nodup_keys_filter h.loaders _
  names hfound := by
    rw [Table.get?_filter] at hfound
    split at hfound
    · exact h.names hfound
    · cases hfound

theorem Distinct.foldl_eraseSlot (h : cache.Distinct) (uses : List (Nat × ClassKey)) :
    (uses.foldl (fun cache use => cache.eraseSlot use.2.1 use.2.2) cache).Distinct := by
  induction uses generalizing cache with
  | nil => exact h
  | cons use rest ih => exact ih (h.eraseSlot use.2.1 use.2.2)

theorem eraseSlot_eq (cache : Cache) (loader : LoaderKey) (name : String) :
    cache.eraseSlot loader name =
      { cache with tables := (cache.eraseSlot loader name).tables } := by
  rw [eraseSlot]
  split <;> rfl

theorem isSome_tables_eraseSlot (cache : Cache) (loader other : LoaderKey) (name : String) :
    ((cache.eraseSlot loader name).tables.get? other).isSome =
      (cache.tables.get? other).isSome := by
  rw [eraseSlot]
  split
  · next table htable =>
    rw [Table.get?_set]
    split
    · next heq =>
      rw [← heq, htable]
      rfl
    · rfl
  · rfl

theorem isSome_tables_foldl_eraseSlot (uses : List (Nat × ClassKey)) (cache : Cache)
    (loader : LoaderKey) :
    ((uses.foldl (fun cache use => cache.eraseSlot use.2.1 use.2.2) cache).tables.get?
      loader).isSome = (cache.tables.get? loader).isSome := by
  induction uses generalizing cache with
  | nil => rfl
  | cons use rest ih => rw [List.foldl_cons, ih, isSome_tables_eraseSlot]

theorem foldl_eraseSlot_eq (uses : List (Nat × ClassKey)) (cache : Cache) :
    uses.foldl (fun cache use => cache.eraseSlot use.2.1 use.2.2) cache =
      { cache with
        tables := (uses.foldl (fun cache use => cache.eraseSlot use.2.1 use.2.2) cache).tables }
    := by
  induction uses generalizing cache with
  | nil => rfl
  | cons use rest ih =>
    rw [List.foldl_cons, ih, eraseSlot_eq]

theorem slot?_foldl_eraseSlot (uses : List (Nat × ClassKey)) (cache : Cache) (loader : LoaderKey)
    (name : String) :
    (uses.foldl (fun cache use => cache.eraseSlot use.2.1 use.2.2) cache).slot? loader name =
      if (loader, name) ∈ uses.map Prod.snd then none else cache.slot? loader name := by
  induction uses generalizing cache with
  | nil => rfl
  | cons use rest ih =>
    rw [List.foldl_cons, ih, slot?_eraseSlot, List.map_cons]
    by_cases hrest : (loader, name) ∈ rest.map Prod.snd
    · rw [if_pos hrest, if_pos (List.mem_cons_of_mem _ hrest)]
    · rw [if_neg hrest]
      by_cases huse : use.2.1 = loader ∧ use.2.2 = name
      · rw [if_pos huse, if_pos]
        rw [← huse.1, ← huse.2]
        exact List.mem_cons_self
      · rw [if_neg huse, if_neg]
        intro hmem
        rcases List.mem_cons.1 hmem with heq | hmem
        · exact huse ⟨(congrArg Prod.fst heq).symm, (congrArg Prod.snd heq).symm⟩
        · exact hrest hmem

/-! ## Trimming -/

def oldest (cache : Cache) : List (Nat × ClassKey) :=
  (cache.uses.mergeSort fun a b => a.1 ≤ b.1).take (cache.uses.length - cache.kept)

theorem oldest_subset : cache.oldest ⊆ cache.uses := by
  intro use huse
  exact (List.mergeSort_perm _ _).mem_iff.1 (List.mem_of_mem_take huse)

theorem length_oldest (cache : Cache) : cache.oldest.length = cache.size - cache.kept := by
  rw [oldest, List.length_take, List.length_mergeSort, length_uses]
  omega

theorem nodup_oldest (h : cache.Distinct) : (cache.oldest.map Prod.snd).Nodup := by
  have hsorted : ((cache.uses.mergeSort fun a b => a.1 ≤ b.1).map Prod.snd).Nodup :=
    ((List.mergeSort_perm _ _).map Prod.snd).nodup_iff.2 (nodup_uses h)
  exact hsorted.sublist ((List.take_sublist _ _).map Prod.snd)

theorem le_of_mem_oldest {dropped kept : Nat × ClassKey} (hdropped : dropped ∈ cache.oldest)
    (hkept : kept ∈ cache.uses) (hnot : kept ∉ cache.oldest) : dropped.1 ≤ kept.1 := by
  have hsorted : (cache.uses.mergeSort fun a b => a.1 ≤ b.1).Pairwise
      fun a b => decide (a.1 ≤ b.1) = true := by
    apply List.pairwise_mergeSort
    · intro a b c hab hbc
      simp only [decide_eq_true_eq] at hab hbc ⊢
      exact hab.trans hbc
    · intro a b
      simp only [Bool.or_eq_true, decide_eq_true_eq]
      exact Nat.le_total a.1 b.1
  rw [← List.take_append_drop (cache.uses.length - cache.kept)
    (cache.uses.mergeSort fun a b => a.1 ≤ b.1), List.pairwise_append] at hsorted
  have hmem : kept ∈ cache.uses.mergeSort fun a b => a.1 ≤ b.1 :=
    (List.mergeSort_perm _ _).mem_iff.2 hkept
  rw [← List.take_append_drop (cache.uses.length - cache.kept)
    (cache.uses.mergeSort fun a b => a.1 ≤ b.1)] at hmem
  rcases List.mem_append.1 hmem with htake | hdrop
  · exact absurd htake hnot
  · exact of_decide_eq_true (hsorted.2.2 dropped hdropped kept hdrop)

theorem trim_of_le (h : cache.size ≤ cache.kept) :
    cache.trim = { cache with entries := cache.size } := by
  rw [trim, length_uses]
  exact if_pos h

theorem trim_of_lt (h : cache.kept < cache.size) :
    cache.trim = { cache with
      tables := (cache.oldest.foldl (fun cache use => cache.eraseSlot use.2.1 use.2.2) cache).tables
      entries := cache.entries - cache.oldest.length
      counts := { cache.counts with
        evictions := cache.counts.evictions + cache.oldest.length } } := by
  have hnot : ¬ cache.uses.length ≤ cache.kept := by
    rw [length_uses]
    omega
  rw [trim]
  simp only [if_neg hnot]
  rw [← oldest, foldl_eraseSlot_eq]
  rfl

theorem Distinct.trim (h : cache.Distinct) : cache.trim.Distinct := by
  by_cases hsize : cache.size ≤ cache.kept
  · rw [trim_of_le hsize]
    exact h.of_tables rfl
  · rw [trim_of_lt (by omega)]
    exact (h.foldl_eraseSlot cache.oldest).of_tables rfl

theorem slot?_trim (h : cache.kept < cache.size) (loader : LoaderKey) (name : String) :
    cache.trim.slot? loader name =
      if (loader, name) ∈ cache.oldest.map Prod.snd then none else cache.slot? loader name := by
  rw [trim_of_lt h]
  exact slot?_foldl_eraseSlot cache.oldest cache loader name

theorem classes_trim (h : cache.Distinct) (hsize : cache.kept < cache.size) :
    cache.trim.classes = cache.classes \ (cache.oldest.map Prod.snd).toFinset := by
  ext ⟨loader, name⟩
  rw [mem_classes h.trim, slot?_trim hsize, Finset.mem_sdiff, mem_classes h, List.mem_toFinset]
  split <;> simp_all

theorem card_classes_trim (h : cache.Distinct) (hsize : cache.kept < cache.size) :
    (cache.classes \ cache.trim.classes).card = cache.size - cache.kept ∧
      cache.trim.size = cache.kept := by
  have hsubset : (cache.oldest.map Prod.snd).toFinset ⊆ cache.classes := by
    intro key hkey
    rw [List.mem_toFinset] at hkey
    rw [classes, List.mem_toFinset]
    exact List.map_subset _ oldest_subset hkey
  have hcard : (cache.oldest.map Prod.snd).toFinset.card = cache.size - cache.kept := by
    rw [List.toFinset_card_of_nodup (nodup_oldest h), List.length_map, length_oldest]
  have hsplit := Finset.card_sdiff_add_card_eq_card hsubset
  rw [hcard, card_classes h, ← classes_trim h hsize, card_classes h.trim] at hsplit
  refine ⟨?_, by omega⟩
  rw [classes_trim h hsize, Finset.sdiff_sdiff_eq_self hsubset, hcard]

/-- A class that trimming drops was used no later than one that it keeps. -/
theorem lastUse_le_of_trim (h : cache.Distinct) (dropped kept : ClassKey) {old new : CacheSlot}
    (hold : cache.slot? dropped.1 dropped.2 = some old)
    (hdropped : cache.trim.slot? dropped.1 dropped.2 = none)
    (hnew : cache.slot? kept.1 kept.2 = some new)
    (hkept : (cache.trim.slot? kept.1 kept.2).isSome) : old.lastUse ≤ new.lastUse := by
  by_cases hsize : cache.size ≤ cache.kept
  · rw [trim_of_le hsize] at hdropped
    cases hold.symm.trans hdropped
  · rw [slot?_trim (by omega)] at hdropped hkept
    have hnot : kept ∉ cache.oldest.map Prod.snd := by
      intro hmem
      rw [if_pos hmem] at hkept
      cases hkept
    have hmem : dropped ∈ cache.oldest.map Prod.snd := by
      by_contra hmem
      rw [if_neg hmem, hold] at hdropped
      cases hdropped
    obtain ⟨use, huse, rfl⟩ := List.mem_map.1 hmem
    obtain ⟨slot, hslot, hlast⟩ := (mem_uses h).1 (oldest_subset huse)
    rw [hold, Option.some.injEq] at hslot
    rw [hslot, hlast]
    have hmember : (new.lastUse, kept) ∈ cache.uses := (mem_uses h).2 ⟨new, hnew, rfl⟩
    apply le_of_mem_oldest huse hmember
    intro holdest
    exact hnot (List.mem_map_of_mem holdest)

end Cache

end ClassSieve
