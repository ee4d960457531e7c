import ClassSieve.Proofs.Cache.History
import ClassSieve.Proofs.Cache.Uses

/-!
# Capacity and conservation

A cache counts its entries apart from its tables. In every run the two agree and stay within the
capacity, and every class that was ever admitted is still held, was trimmed or was dropped by an
operation that drops classes. An admission beyond the capacity drops just enough classes to leave
an eighth of it free, and never the class that it admits.
-/
namespace ClassSieve
open ClassFile

namespace Cache

/-- The count of entries is right and no stamp is from the future. -/
structure Sound (cache : Cache) : Prop where
  distinct : cache.Distinct
  entries_eq : cache.entries = cache.size
  size_le : cache.size ≤ cache.capacity
  capacity_ge : leastCapacity ≤ cache.capacity
  lastUse_le : ∀ {loader name slot}, cache.slot? loader name = some slot →
    slot.lastUse ≤ cache.admissions

variable {cache : Cache} {loader : LoaderKey} {name : String}

theorem sound_ofCapacity (capacity : Nat) (loaders : Loaders) :
    (ofCapacity capacity loaders).Sound where
  distinct := ⟨List.nodup_nil, fun h => nomatch h⟩
  entries_eq := rfl
  size_le := Nat.zero_le _
  capacity_ge := Nat.le_max_left _ _
  lastUse_le h := nomatch h

theorem Sound.cleared {after : Cache} (h : cache.Sound) (hcleared : cache.Cleared after) :
    after.Sound where
  distinct := hcleared.distinct h.distinct
  entries_eq := hcleared.entries h.distinct h.entries_eq
  size_le := by
    have hsize := hcleared.size_eq h.distinct
    have hle := h.size_le
    rw [hcleared.capacity]
    omega
  capacity_ge := by
    rw [hcleared.capacity]
    exact h.capacity_ge
  lastUse_le hslot := by
    rw [hcleared.admissions]
    exact h.lastUse_le (hcleared.slots hslot)

/-! ## Slots that are written anew -/

theorem size_setSlot_of_stored (h : cache.Distinct) {slot : CacheSlot}
    (hslot : cache.slot? loader name = some slot) (written : CacheSlot) :
    (cache.setSlot loader name written).size = cache.size := by
  have hmem : (loader, name) ∈ cache.classes := by
    rw [mem_classes h, hslot]
    rfl
  rw [← card_classes (h.setSlot loader name written), classes_setSlot h,
    Finset.insert_eq_of_mem hmem, card_classes h]

theorem size_setSlot_of_missing (h : cache.Distinct) (hslot : cache.slot? loader name = none)
    (written : CacheSlot) :
    (cache.setSlot loader name written).size = cache.size + 1 := by
  have hnot : (loader, name) ∉ cache.classes := by
    rw [mem_classes h, hslot]
    exact Bool.false_ne_true
  rw [← card_classes (h.setSlot loader name written), classes_setSlot h,
    Finset.card_insert_of_notMem hnot, card_classes h]

theorem Sound.rewrite (h : cache.Sound) {slot : CacheSlot}
    (hslot : cache.slot? loader name = some slot) (written : CacheSlot)
    (hwritten : written.lastUse ≤ cache.admissions) (counts : CacheCounts) :
    ((cache.setSlot loader name written).recount counts).Sound where
  distinct := (h.distinct.setSlot loader name written).of_tables rfl
  entries_eq := h.entries_eq.trans (size_setSlot_of_stored h.distinct hslot written).symm
  size_le := (size_setSlot_of_stored h.distinct hslot written).le.trans h.size_le
  capacity_ge := h.capacity_ge
  lastUse_le {other otherName found} hfound := by
    have hset : (cache.setSlot loader name written).slot? other otherName = some found := hfound
    rw [slot?_setSlot] at hset
    split at hset
    · cases hset
      exact hwritten
    · exact h.lastUse_le hset

/-! ## Admissions -/

def grown (cache : Cache) (loader : LoaderKey) (name : String) (entry : Entry) : Cache :=
  { cache.setSlot loader name ⟨entry, cache.admissions + 1⟩ with
    admissions := cache.admissions + 1
    entries := cache.entries + 1 }

@[simp] theorem capacity_grown (cache : Cache) (loader : LoaderKey) (name : String)
    (entry : Entry) : (cache.grown loader name entry).capacity = cache.capacity := rfl

theorem store_eq (cache : Cache) (loader : LoaderKey) (name : String) (entry : Entry) :
    cache.store loader name entry =
      if cache.capacity < cache.entries + 1 then (cache.grown loader name entry).trim
      else cache.grown loader name entry := rfl

theorem slot?_grown (cache : Cache) (loader other : LoaderKey) (name otherName : String)
    (entry : Entry) :
    (cache.grown loader name entry).slot? other otherName =
      if loader = other ∧ name = otherName then some ⟨entry, cache.admissions + 1⟩
      else cache.slot? other otherName :=
  slot?_setSlot cache loader other name otherName ⟨entry, cache.admissions + 1⟩

theorem Distinct.grown (h : cache.Distinct) (loader : LoaderKey) (name : String) (entry : Entry) :
    (cache.grown loader name entry).Distinct :=
  (h.setSlot loader name ⟨entry, cache.admissions + 1⟩).of_tables rfl

theorem size_grown (h : cache.Distinct) (hslot : cache.slot? loader name = none) (entry : Entry) :
    (cache.grown loader name entry).size = cache.size + 1 :=
  size_setSlot_of_missing h hslot _

theorem kept_grown (cache : Cache) (loader : LoaderKey) (name : String) (entry : Entry) :
    (cache.grown loader name entry).kept = cache.capacity - cache.capacity / 8 := rfl

theorem kept_lt_size_grown (h : cache.Sound) (hslot : cache.slot? loader name = none)
    (hfull : cache.capacity < cache.entries + 1) (entry : Entry) :
    (cache.grown loader name entry).kept < (cache.grown loader name entry).size := by
  rw [size_grown h.distinct hslot, ← h.entries_eq, kept_grown]
  omega

theorem lastUse_le_of_grown (h : cache.Sound) {entry : Entry} {other : LoaderKey}
    {otherName : String} {slot : CacheSlot}
    (hslot : (cache.grown loader name entry).slot? other otherName = some slot) :
    slot.lastUse ≤ cache.admissions + 1 := by
  rw [slot?_grown] at hslot
  split at hslot
  · cases hslot
    exact Nat.le_refl _
  · exact Nat.le_succ_of_le (h.lastUse_le hslot)

theorem isSome_slot?_trim_grown (h : cache.Sound) (loader : LoaderKey) (name : String)
    (entry : Entry) : ((cache.grown loader name entry).trim.slot? loader name).isSome := by
  have hgrown := h.distinct.grown loader name entry
  have hnew : (cache.grown loader name entry).slot? loader name =
      some ⟨entry, cache.admissions + 1⟩ := by
    rw [slot?_grown, if_pos ⟨rfl, rfl⟩]
  by_cases hsize : (cache.grown loader name entry).size ≤ (cache.grown loader name entry).kept
  · rw [trim_of_le hsize]
    exact Option.isSome_of_eq_some hnew
  · -- some class is kept, and it was not used later than the one that is admitted
    rw [Option.isSome_iff_ne_none]
    intro hdropped
    have hkept : 0 < (cache.grown loader name entry).trim.classes.card := by
      have hge := h.capacity_ge
      rw [card_classes hgrown.trim, (card_classes_trim hgrown (by omega)).2, kept, capacity_grown]
      rw [leastCapacity] at hge
      omega
    obtain ⟨⟨other, otherName⟩, hother⟩ := Finset.card_pos.1 hkept
    rw [mem_classes hgrown.trim] at hother
    obtain ⟨slot, hfound⟩ := Option.isSome_iff_exists.1 hother
    have hbefore := slot?_of_trim hfound
    have hle := lastUse_le_of_trim hgrown (loader, name) (other, otherName) hnew hdropped hbefore
      hother
    rw [slot?_grown] at hbefore
    split at hbefore
    · next hkey =>
      rw [← hkey.1, ← hkey.2, hdropped] at hfound
      cases hfound
    · have hold := h.lastUse_le hbefore
      simp only at hle
      omega

theorem store_of_full (h : cache.Sound) (hslot : cache.slot? loader name = none)
    (hfull : cache.capacity < cache.entries + 1) (entry : Entry) :
    (cache.classes \ (cache.store loader name entry).classes).card = cache.capacity / 8 + 1 ∧
      (cache.store loader name entry).size = cache.capacity - cache.capacity / 8 ∧
      (loader, name) ∈ (cache.store loader name entry).classes := by
  have hgrown := h.distinct.grown loader name entry
  have hle := h.size_le
  have hentries := h.entries_eq
  have hsize := size_grown h.distinct hslot entry
  have hkept := kept_grown cache loader name entry
  obtain ⟨hdropped, hleft⟩ := card_classes_trim hgrown (kept_lt_size_grown h hslot hfull entry)
  have hmem : (loader, name) ∈ (cache.grown loader name entry).trim.classes := by
    rw [mem_classes hgrown.trim]
    exact isSome_slot?_trim_grown h loader name entry
  have hclasses : (cache.grown loader name entry).classes =
      insert (loader, name) cache.classes := classes_setSlot h.distinct loader name _
  rw [hclasses, Finset.insert_sdiff_of_mem _ hmem] at hdropped
  rw [store_eq, if_pos hfull]
  exact ⟨by omega, by omega, hmem⟩

theorem Sound.store (h : cache.Sound) (hslot : cache.slot? loader name = none) (entry : Entry) :
    (cache.store loader name entry).Sound := by
  have hgrown := h.distinct.grown loader name entry
  have hsize := size_grown h.distinct hslot entry
  have hentries := h.entries_eq
  rw [store_eq]
  split
  · next hfull =>
    have hkept := kept_grown cache loader name entry
    have hlength := length_oldest (cache.grown loader name entry)
    have hle := h.size_le
    have hover := kept_lt_size_grown h hslot hfull entry
    have hleft := (card_classes_trim hgrown hover).2
    have hcapacity : (cache.grown loader name entry).trim.capacity = cache.capacity := by
      rw [trim_of_lt hover]
      rfl
    refine ⟨hgrown.trim, ?_, ?_, ?_, ?_⟩
    · rw [hleft, trim_of_lt hover]
      change cache.entries + 1 - (cache.grown loader name entry).oldest.length = _
      omega
    · rw [hleft, hcapacity, hkept]
      exact Nat.sub_le _ _
    · rw [hcapacity]
      exact h.capacity_ge
    · intro other otherName slot hfound
      have hold := lastUse_le_of_grown h (slot?_of_trim hfound)
      rw [trim_of_lt hover]
      exact hold
  · next hfull =>
    refine ⟨hgrown, ?_, ?_, h.capacity_ge, lastUse_le_of_grown h⟩
    · rw [hsize, ← hentries]
      rfl
    · change (cache.grown loader name entry).size ≤ cache.capacity
      omega

theorem size_store (h : cache.Sound) (hslot : cache.slot? loader name = none) (entry : Entry) :
    (cache.store loader name entry).size + (cache.store loader name entry).counts.evictions =
      cache.size + 1 + cache.counts.evictions ∧
    (cache.store loader name entry).counts.misses = cache.counts.misses ∧
    (cache.store loader name entry).capacity = cache.capacity := by
  have hgrown := h.distinct.grown loader name entry
  have hsize := size_grown h.distinct hslot entry
  have hentries := h.entries_eq
  rw [store_eq]
  split
  · next hfull =>
    have hlength := length_oldest (cache.grown loader name entry)
    have hover := kept_lt_size_grown h hslot hfull entry
    have hleft := (card_classes_trim hgrown hover).2
    have hevictions : (cache.grown loader name entry).trim.counts.evictions =
        cache.counts.evictions + (cache.grown loader name entry).oldest.length := by
      rw [trim_of_lt hover]
      rfl
    refine ⟨by omega, ?_, ?_⟩
    · rw [trim_of_lt hover]
      rfl
    · rw [trim_of_lt hover]
      rfl
  · refine ⟨?_, rfl, rfl⟩
    rw [hsize]
    rfl

variable {loaders : Loaders} {kind : UseKind} {after : Cache}

theorem Sound.recount (h : cache.Sound) (counts : CacheCounts) : (cache.recount counts).Sound :=
  ⟨h.distinct.of_tables rfl, h.entries_eq, h.size_le, h.capacity_ge, h.lastUse_le⟩

theorem Sound.used (h : cache.Sound) (hused : cache.Used loaders loader name kind after) :
    after.Sound := by
  cases hused with
  | hit stored same => exact h.rewrite stored _ (Nat.le_refl _) _
  | @refresh slot entry counts stored same =>
    have hle : slot.lastUse ≤ cache.admissions := h.lastUse_le stored
    exact h.rewrite stored ⟨entry, slot.lastUse⟩ hle counts
  | @admission entry counts missing served same => exact (h.recount counts).store missing entry

theorem balance_rewrite (h : cache.Sound) {slot : CacheSlot}
    (hslot : cache.slot? loader name = some slot) (written : CacheSlot) {counts : CacheCounts}
    (same : SameStores counts cache.counts) :
    counts.misses + cache.size + cache.counts.evictions =
      cache.counts.misses + (cache.setSlot loader name written).size + counts.evictions := by
  rw [size_setSlot_of_stored h.distinct hslot, same.misses, same.evictions]

/-- A use admits as many classes as it adds to those that are held and those that were trimmed. -/
theorem Used.balance (hused : cache.Used loaders loader name kind after) (h : cache.Sound) :
    after.counts.misses + cache.size + cache.counts.evictions =
      cache.counts.misses + after.size + after.counts.evictions ∧
    after.capacity = cache.capacity := by
  cases hused with
  | hit stored same => exact ⟨balance_rewrite h stored _ same, rfl⟩
  | refresh stored same => exact ⟨balance_rewrite h stored _ same, rfl⟩
  | @admission entry counts missing served same =>
    obtain ⟨hsize, hmisses, hcapacity⟩ := size_store (h.recount counts) missing entry
    have hbefore : (cache.recount counts).size = cache.size := rfl
    have hcounted : (cache.recount counts).counts.misses = cache.counts.misses + 1 := same.misses
    have htrimmed : (cache.recount counts).counts.evictions = cache.counts.evictions :=
      same.evictions
    exact ⟨by omega, hcapacity⟩

theorem Used.eq_trim (hused : cache.Used loaders loader name .admission after) (h : cache.Sound)
    (hfull : cache.capacity < cache.size + 1) :
    ∃ entry counts, after = ((cache.recount counts).grown loader name entry).trim := by
  cases hused with
  | @admission entry counts missing served same =>
    refine ⟨entry, counts, ?_⟩
    rw [← h.entries_eq] at hfull
    rw [store_eq]
    exact if_pos hfull

theorem Used.full (hused : cache.Used loaders loader name .admission after) (h : cache.Sound)
    (hfull : cache.capacity < cache.size + 1) :
    (cache.classes \ after.classes).card = cache.capacity / 8 + 1 ∧
      after.size = cache.capacity - cache.capacity / 8 ∧ (loader, name) ∈ after.classes := by
  rw [← h.entries_eq] at hfull
  cases hused with
  | @admission entry counts missing served same =>
    exact store_of_full (h.recount counts) missing hfull entry

end Cache

namespace Agent

def removed (agent : Agent) : List Operation → Nat
  | [] => 0
  | operation :: rest =>
    (agent.cache.classes \ (agent.cleared operation).classes).card +
      (agent.step operation).1.removed rest

/-- A sound cache of which `gone` classes were dropped so far. -/
structure Balanced (capacity gone : Nat) (agent : Agent) : Prop where
  sound : agent.cache.Sound
  capacity_eq : agent.cache.capacity = capacity
  misses_eq : agent.cache.counts.misses =
    agent.cache.size + agent.cache.counts.evictions + gone

variable {capacity gone : Nat} {agent : Agent}

theorem sound_step (h : agent.cache.Sound) (operation : Operation) :
    (agent.step operation).1.cache.Sound := by
  have hcleared := h.cleared (cleared_cleared agent operation)
  cases huse : agent.use? operation with
  | some use => exact hcleared.used (used_step huse)
  | none =>
    obtain ⟨counts, hstep, -⟩ := step_of_unused huse
    rw [hstep]
    exact hcleared.recount counts

theorem balanced_withCache (edition : Edition) (loaders : Loaders) (handles : List Handle)
    (capacity : Nat) :
    (withCache edition loaders handles capacity).Balanced
      (max Cache.leastCapacity (min capacity Cache.greatestCapacity)) 0 where
  sound := Cache.sound_ofCapacity capacity loaders
  capacity_eq := rfl
  misses_eq := rfl

theorem Balanced.step (h : agent.Balanced capacity gone) (operation : Operation) :
    (agent.step operation).1.Balanced capacity
      (gone + (agent.cache.classes \ (agent.cleared operation).classes).card) := by
  have hcleared := cleared_cleared agent operation
  have hsound := h.sound.cleared hcleared
  have hsize := hcleared.size_eq h.sound.distinct
  have hmisses := h.misses_eq
  have hcounts := hcleared.counts
  have hcapacity := hcleared.capacity.trans h.capacity_eq
  rw [← hcounts] at hmisses
  cases huse : agent.use? operation with
  | some use =>
    have hused := used_step huse
    obtain ⟨hbalance, hkept⟩ := hused.balance hsound
    exact ⟨sound_step h.sound operation, hkept.trans hcapacity, by omega⟩
  | none =>
    obtain ⟨counts, hstep, hsame⟩ := step_of_unused huse
    have hcounted := hsame.misses
    have htrimmed := hsame.evictions
    refine ⟨sound_step h.sound operation, ?_, ?_⟩
    · rw [hstep]
      exact hcapacity
    · rw [hstep]
      change counts.misses = (agent.cleared operation).size + counts.evictions + _
      omega

theorem Balanced.run (h : agent.Balanced capacity gone) (past : List Operation) :
    (agent.run past).1.Balanced capacity (gone + agent.removed past) := by
  induction past generalizing agent gone with
  | nil => exact h
  | cons operation rest ih =>
    rw [removed, ← Nat.add_assoc]
    exact ih (h.step operation)

/-- In every run the entries are counted right and fit the capacity, and every class that was
admitted is held, was trimmed or was dropped. An admission to a full cache drops an eighth of it and
one more class, and not the class that it admits. -/
theorem conservation (edition : Edition) (loaders : Loaders) (handles : List Handle)
    (capacity : Nat) (past : List Operation) :
    let start := withCache edition loaders handles capacity
    let agent := (start.run past).1
    let bound := max Cache.leastCapacity (min capacity Cache.greatestCapacity)
    agent.cache.entries = agent.cache.size ∧ agent.cache.size ≤ bound ∧
      agent.cache.counts.misses =
        agent.cache.size + agent.cache.counts.evictions + start.removed past ∧
      ∀ operation key, agent.use? operation = some ⟨key, .admission⟩ →
        bound < (agent.cleared operation).size + 1 →
        let next := (agent.step operation).1.cache
        ((agent.cleared operation).classes \ next.classes).card = bound / 8 + 1 ∧
          next.size = bound - bound / 8 ∧ key ∈ next.classes := by
  intro start agent bound
  have hbalanced : agent.Balanced bound (0 + start.removed past) :=
    (balanced_withCache edition loaders handles capacity).run past
  rw [Nat.zero_add] at hbalanced
  refine ⟨hbalanced.sound.entries_eq, ?_, hbalanced.misses_eq, ?_⟩
  · rw [← hbalanced.capacity_eq]
    exact hbalanced.sound.size_le
  · intro operation key huse hfull
    have hcleared := cleared_cleared agent operation
    have hsound := hbalanced.sound.cleared hcleared
    have hcapacity := hcleared.capacity.trans hbalanced.capacity_eq
    rw [← hcapacity] at hfull ⊢
    exact (used_step huse).full hsound hfull

def sixteenNames : List String :=
  ["a", "b", "c", "d", "e", "f", "g", "h", "i", "j", "k", "l", "m", "n", "o", "p"]

-- none of these classes can be read, and each is admitted all the same
def sixteenLoads : List Operation := sixteenNames.map fun name => .load .boot (some name) []

theorem conservation_seventeenth :
    let agent := ((withCache (.first .idle) .initial [] 16).run sixteenLoads).1
    let operation : Operation := .load .boot (some "q") []
    let next := (agent.step operation).1.cache
    agent.cache.counts.misses = 16 ∧
      ((agent.cleared operation).classes \ next.classes).card = 3 ∧ next.size = 14 ∧
      (.boot, "q") ∈ next.classes := by
  intro agent operation next
  have hbound : max Cache.leastCapacity (min 16 Cache.greatestCapacity) = 16 := by decide
  obtain ⟨-, -, -, hfull⟩ := conservation (.first .idle) .initial [] 16 sixteenLoads
  rw [hbound] at hfull
  have hmisses : agent.cache.counts.misses = 16 := by decide +kernel
  have huse : agent.use? operation = some ⟨(.boot, "q"), .admission⟩ := by decide +kernel
  have hover : 16 < (agent.cleared operation).size + 1 := by decide +kernel
  have hdrops := hfull operation (.boot, "q") huse hover
  exact ⟨hmisses, hdrops⟩

end Agent

end ClassSieve
