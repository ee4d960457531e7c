import ClassSieve.Agent

/-!
# What the tables of a cache hold

Which entries are stored behind an operation, told from those that were stored before it. A look-up
leaves the class it was asked about with the entry it answered, or without any; every other class
keeps its entry or loses it. No other operation stores an entry.
-/
namespace ClassSieve
open ClassFile

theorem Table.get?_filter {κ α : Type} [DecidableEq κ] (p : κ → Bool) (table : Table κ α)
    (key : κ) :
    Table.get? (table.filter fun entry => p entry.1) key =
      if p key then Table.get? table key else none := by
  induction table with
  | nil => simp
  | cons entry rest ih =>
    by_cases hkey : entry.1 = key
    · subst hkey
      by_cases hp : p entry.1 <;> simp [hp, Table.get?_cons, ih]
    · by_cases hp : p entry.1 <;> simp [hp, Table.get?_cons, hkey, ih]

namespace Cache

def stored? (cache : Cache) (loader : LoaderKey) (name : String) : Option Entry :=
  (cache.slot? loader name).map CacheSlot.entry

theorem stored?_eq_some_iff {cache : Cache} {loader : LoaderKey} {name : String} {entry : Entry} :
    cache.stored? loader name = some entry ↔
      ∃ slot, cache.slot? loader name = some slot ∧ slot.entry = entry :=
  Option.map_eq_some_iff

@[simp] theorem slot?_forget (cache : Cache) (n : Nat) : (cache.forget n).slot? = cache.slot? := rfl

theorem slot?_setSlot (cache : Cache) (loader other : LoaderKey) (name otherName : String)
    (slot : CacheSlot) :
    (cache.setSlot loader name slot).slot? other otherName =
      if loader = other ∧ name = otherName then some slot
      else cache.slot? other otherName := by
  simp only [slot?, setSlot, Table.get?_set]
  by_cases hloader : loader = other
  · subst hloader
    rw [if_pos rfl, Option.bind_some, Table.get?_set]
    by_cases hname : name = otherName
    · simp [hname]
    · rw [if_neg hname, if_neg (by simp [hname])]
      cases cache.tables.get? loader <;> simp
  · simp [hloader]

theorem slot?_eraseSlot (cache : Cache) (loader other : LoaderKey) (name otherName : String) :
    (cache.eraseSlot loader name).slot? other otherName =
      if loader = other ∧ name = otherName then none else cache.slot? other otherName := by
  cases htable : cache.tables.get? loader with
  | none =>
    simp only [eraseSlot, htable]
    split
    · next h => simp [slot?, ← h.1, htable]
    · rfl
  | some table =>
    simp only [eraseSlot, htable, slot?, Table.get?_set]
    by_cases hloader : loader = other
    · subst hloader
      rw [if_pos rfl, Option.bind_some, Table.get?_erase, htable, Option.bind_some]
      by_cases hname : name = otherName <;> simp [hname]
    · simp [hloader]

theorem tables_sweep (cache : Cache) (loaders : Loaders) :
    (cache.sweep loaders).1.tables = cache.tables.filter fun entry => loaders.isLive entry.1 := by
  simp only [sweep, forget, List.partition_eq_filter_filter]

theorem slot?_sweep (cache : Cache) (loaders : Loaders) (loader : LoaderKey) (name : String) :
    (cache.sweep loaders).1.slot? loader name =
      if loaders.isLive loader then cache.slot? loader name else none := by
  rw [slot?, slot?, tables_sweep, Table.get?_filter fun key => loaders.isLive key]
  split <;> rfl

theorem slot?_of_sweepIfDue {cache : Cache} {loaders : Loaders} {loader : LoaderKey}
    {name : String} {slot : CacheSlot}
    (h : (cache.sweepIfDue loaders).slot? loader name = some slot) :
    cache.slot? loader name = some slot := by
  rw [sweepIfDue] at h
  split at h
  · rw [slot?_sweep] at h
    split at h
    · exact h
    · cases h
  · exact h

theorem slot?_of_foldl_eraseSlot {uses : List (Nat × LoaderKey × String)} {cache : Cache}
    {loader : LoaderKey} {name : String} {slot : CacheSlot}
    (h : (uses.foldl (fun cache use => cache.eraseSlot use.2.1 use.2.2) cache).slot? loader name =
      some slot) :
    cache.slot? loader name = some slot := by
  induction uses generalizing cache with
  | nil => exact h
  | cons use uses ih =>
    have hrest := ih h
    rw [slot?_eraseSlot] at hrest
    split at hrest
    · cases hrest
    · exact hrest

theorem slot?_of_trim {cache : Cache} {loader : LoaderKey} {name : String} {slot : CacheSlot}
    (h : cache.trim.slot? loader name = some slot) : cache.slot? loader name = some slot := by
  simp only [trim] at h
  split at h
  · exact h
  · exact slot?_of_foldl_eraseSlot h

theorem slot?_of_store {cache : Cache} {loader other : LoaderKey} {name otherName : String}
    {entry : Entry} {slot : CacheSlot}
    (h : (cache.store loader name entry).slot? other otherName = some slot) :
    if loader = other ∧ name = otherName then slot.entry = entry
    else cache.slot? other otherName = some slot := by
  have hgrown : (cache.setSlot loader name ⟨entry, cache.admissions + 1⟩).slot? other otherName =
      some slot := by
    simp only [store] at h
    split at h
    · have hbefore := slot?_of_trim h
      exact hbefore
    · exact h
  rw [slot?_setSlot] at hgrown
  split
  · next hkey =>
    rw [if_pos hkey] at hgrown
    cases hgrown
    rfl
  · next hkey => rwa [if_neg hkey] at hgrown

theorem stored?_touch {cache : Cache} {loader : LoaderKey} {name : String} {slot : CacheSlot}
    (h : cache.slot? loader name = some slot) :
    (cache.touch loader name slot).stored? = cache.stored? := by
  funext other otherName
  rw [stored?, stored?, touch, slot?_setSlot]
  split
  · next hkey => rw [← hkey.1, ← hkey.2, h]; rfl
  · rfl

end Cache

end ClassSieve
