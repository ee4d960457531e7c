import ClassSieve.Proofs.Cache.Contents

/-!
# Answers of the cache

The entry that a look-up answers depends on the entry stored for the class, on the policy in force
and on the bytes at hand: `Entry.answer` says how. What a look-up leaves stored for the class is
what it answered.
-/
namespace ClassSieve
open ClassFile

def Entry.answer (edition : Edition) (name : String) (bytes : Bytes) : Option Entry → Entry
  | none => compute edition (some name) bytes
  | some entry =>
    if entry.generation < edition.generation then
      if entry.needsParse edition name then compute edition (some name) bytes
      else entry.redecide edition name
    else entry

namespace Cache
variable (cache : Cache) (loaders : Loaders) (edition : Edition) (loader : LoaderKey)
  (name : String) (bytes : Bytes)

theorem answerStored_entry (slot : CacheSlot) :
    (cache.answerStored edition loader name bytes slot).2.entry =
      Entry.answer edition name bytes (some slot.entry) := by
  simp only [answerStored, Entry.answer]
  split
  · split <;> rfl
  · rfl

theorem getOrCompute_entry :
    (cache.getOrCompute loaders edition loader name bytes).2.entry =
      Entry.answer edition name bytes ((cache.sweepIfDue loaders).stored? loader name) := by
  simp only [getOrCompute, stored?]
  split
  · next slot hslot => rw [answerStored_entry, hslot, Option.map_some]
  · next hslot =>
    rw [hslot, answerMissing]
    split <;> rfl

theorem getOrCompute_bytesRead {entry : Entry} {fault : Fault}
    (hentry : (cache.sweepIfDue loaders).stored? loader name = some entry)
    (hfault : entry.outcome = .failed fault) :
    (cache.getOrCompute loaders edition loader name bytes).2.bytesRead = false := by
  obtain ⟨slot, hslot, rfl⟩ := stored?_eq_some_iff.1 hentry
  have hparse : slot.entry.needsParse edition name = false := by
    rw [Entry.needsParse, hfault]
  simp only [getOrCompute, hslot, answerStored, hparse]
  split <;> rfl

theorem redefine_entry :
    (cache.redefine loaders edition loader name bytes).2.entry =
      Entry.compute edition (some name) bytes := by
  have hnone : (((cache.invalidate loader name).1).sweepIfDue loaders).stored? loader name =
      none := by
    rw [stored?, Option.map_eq_none_iff, Option.eq_none_iff_forall_ne_some]
    intro slot hslot
    have hinvalid := slot?_of_sweepIfDue hslot
    rw [invalidate] at hinvalid
    split at hinvalid
    · rw [slot?_forget, slot?_eraseSlot, if_pos ⟨rfl, rfl⟩] at hinvalid
      cases hinvalid
    · next hbefore => rw [hbefore] at hinvalid; cases hinvalid
  rw [redefine, getOrCompute_entry, hnone]
  rfl

variable {cache loaders edition loader name bytes}

theorem stored?_of_sweepIfDue {entry : Entry}
    (h : (cache.sweepIfDue loaders).stored? loader name = some entry) :
    cache.stored? loader name = some entry := by
  obtain ⟨slot, hslot, rfl⟩ := stored?_eq_some_iff.1 h
  exact stored?_eq_some_iff.2 ⟨slot, slot?_of_sweepIfDue hslot, rfl⟩

variable {other : LoaderKey} {otherName : String} {entry : Entry}

theorem stored?_of_answerStored {slot : CacheSlot}
    (h : (cache.answerStored edition loader name bytes slot).1.stored? other otherName =
      some entry) :
    if loader = other ∧ name = otherName then
      entry = (cache.answerStored edition loader name bytes slot).2.entry
    else cache.stored? other otherName = some entry := by
  obtain ⟨found, hfound, rfl⟩ := stored?_eq_some_iff.1 h
  -- each of the three ways of answering writes the slot of the class once
  have hwritten : ∃ written : CacheSlot,
      (cache.setSlot loader name written).slot? other otherName = some found ∧
        written.entry = (cache.answerStored edition loader name bytes slot).2.entry := by
    simp only [answerStored] at hfound ⊢
    split
    · next hstale =>
      rw [if_pos hstale] at hfound
      split
      · next hparse =>
        rw [if_pos hparse] at hfound
        exact ⟨_, hfound, rfl⟩
      · next hparse =>
        rw [if_neg hparse] at hfound
        exact ⟨_, hfound, rfl⟩
    · next hstale =>
      rw [if_neg hstale] at hfound
      exact ⟨_, hfound, rfl⟩
  obtain ⟨written, hslots, hwritten⟩ := hwritten
  rw [slot?_setSlot] at hslots
  split
  · next hkey =>
    rw [if_pos hkey] at hslots
    cases hslots
    exact hwritten
  · next hkey =>
    rw [if_neg hkey] at hslots
    exact stored?_eq_some_iff.2 ⟨found, hslots, rfl⟩

theorem stored?_of_answerMissing {live : Bool} (hslot : cache.slot? loader name = none)
    (h : (cache.answerMissing live edition loader name bytes).1.stored? other otherName =
      some entry) :
    if loader = other ∧ name = otherName then
      entry = (cache.answerMissing live edition loader name bytes).2.entry
    else cache.stored? other otherName = some entry := by
  obtain ⟨found, hfound, rfl⟩ := stored?_eq_some_iff.1 h
  cases live with
  | true =>
    have hstored := slot?_of_store hfound
    split
    · next hkey => rwa [if_pos hkey] at hstored
    · next hkey =>
      rw [if_neg hkey] at hstored
      exact stored?_eq_some_iff.2 ⟨found, hstored, rfl⟩
  | false =>
    have hsame : cache.slot? other otherName = some found := hfound
    split
    · next hkey =>
      rw [← hkey.1, ← hkey.2, hslot] at hsame
      cases hsame
    · exact stored?_eq_some_iff.2 ⟨found, hsame, rfl⟩

theorem stored?_of_getOrCompute
    (h : (cache.getOrCompute loaders edition loader name bytes).1.stored? other otherName =
      some entry) :
    if loader = other ∧ name = otherName then
      entry = (cache.getOrCompute loaders edition loader name bytes).2.entry
    else cache.stored? other otherName = some entry := by
  simp only [getOrCompute] at h ⊢
  split
  · next hkey =>
    split at h
    · have hstored := stored?_of_answerStored h
      rwa [if_pos hkey] at hstored
    · next hslot =>
      have hmissing := stored?_of_answerMissing hslot h
      rwa [if_pos hkey] at hmissing
  · next hkey =>
    have hswept : (cache.sweepIfDue loaders).stored? other otherName = some entry := by
      split at h
      · have hstored := stored?_of_answerStored h
        rwa [if_neg hkey] at hstored
      · next hslot =>
        have hmissing := stored?_of_answerMissing hslot h
        rwa [if_neg hkey] at hmissing
    exact stored?_of_sweepIfDue hswept

theorem stored?_of_invalidate
    (h : (cache.invalidate loader name).1.stored? other otherName = some entry) :
    cache.stored? other otherName = some entry := by
  obtain ⟨found, hfound, rfl⟩ := stored?_eq_some_iff.1 h
  rw [invalidate] at hfound
  split at hfound
  · rw [slot?_forget, slot?_eraseSlot] at hfound
    split at hfound
    · cases hfound
    · exact stored?_eq_some_iff.2 ⟨found, hfound, rfl⟩
  · exact stored?_eq_some_iff.2 ⟨found, hfound, rfl⟩

theorem stored?_of_redefine
    (h : (cache.redefine loaders edition loader name bytes).1.stored? other otherName =
      some entry) :
    if loader = other ∧ name = otherName then
      entry = (cache.redefine loaders edition loader name bytes).2.entry
    else cache.stored? other otherName = some entry := by
  have hlookup := stored?_of_getOrCompute h
  split
  · next hkey => rwa [if_pos hkey] at hlookup
  · next hkey =>
    rw [if_neg hkey] at hlookup
    exact stored?_of_invalidate hlookup

theorem stored?_of_peek (h : (cache.peek loader name).1.stored? other otherName = some entry) :
    cache.stored? other otherName = some entry := by
  rw [peek] at h
  split at h
  · next hslot => rwa [stored?_touch hslot] at h
  · exact h

theorem stored?_of_findAny
    (h : (cache.findAny loaders name).1.stored? other otherName = some entry) :
    cache.stored? other otherName = some entry := by
  simp only [findAny] at h
  split at h
  · exact h
  · exact stored?_of_peek h

theorem stored?_of_sweep
    (h : (cache.sweep loaders).1.stored? other otherName = some entry) :
    cache.stored? other otherName = some entry := by
  obtain ⟨found, hfound, rfl⟩ := stored?_eq_some_iff.1 h
  rw [slot?_sweep] at hfound
  split at hfound
  · exact stored?_eq_some_iff.2 ⟨found, hfound, rfl⟩
  · cases hfound

theorem stored?_of_evictLoader
    (h : (cache.evictLoader loader).1.stored? other otherName = some entry) :
    cache.stored? other otherName = some entry := by
  obtain ⟨found, hfound, rfl⟩ := stored?_eq_some_iff.1 h
  refine stored?_eq_some_iff.2 ⟨found, ?_, rfl⟩
  rw [evictLoader] at hfound
  split at hfound
  · simp only [slot?, forget, Table.get?_erase] at hfound ⊢
    split at hfound
    · cases hfound
    · exact hfound
  · exact hfound

end Cache

end ClassSieve
