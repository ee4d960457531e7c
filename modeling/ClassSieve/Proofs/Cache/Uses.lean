import ClassSieve.Proofs.Cache.Classes

/-!
# Uses of the classes that are stored

An operation first drops classes and then uses at most one: a look-up by name drops the tables of
loaders that have ended, and a redefinition before that the class itself. A use admits a class,
finds it, or decides it anew where the policy has changed since. `Cache.Cleared` and `Cache.Used`
say all that the two parts do to a cache, and everything about runs is derived from them.
-/
namespace ClassSieve
open ClassFile

inductive UseKind where
  | admission
  | hit
  | refresh
  deriving DecidableEq, Repr

structure Use where
  key : ClassKey
  kind : UseKind
  deriving DecidableEq, Repr

namespace Cache

/-! ## Dropping classes -/

/-- `after` is `before` without some of its classes. -/
structure Cleared (before after : Cache) : Prop where
  slots : ∀ {loader name slot}, after.slot? loader name = some slot →
    before.slot? loader name = some slot
  tables : ∀ {loader}, (after.tables.get? loader).isSome → (before.tables.get? loader).isSome
  distinct : before.Distinct → after.Distinct
  entries : before.Distinct → before.entries = before.size → after.entries = after.size
  capacity : after.capacity = before.capacity
  admissions : after.admissions = before.admissions
  counts : after.counts = before.counts

theorem Cleared.refl (cache : Cache) : Cleared cache cache where
  slots h := h
  tables h := h
  distinct h := h
  entries _ h := h
  capacity := rfl
  admissions := rfl
  counts := rfl

theorem Cleared.trans {a b c : Cache} (hab : Cleared a b) (hbc : Cleared b c) : Cleared a c where
  slots h := hab.slots (hbc.slots h)
  tables h := hab.tables (hbc.tables h)
  distinct h := hbc.distinct (hab.distinct h)
  entries hdistinct h := hbc.entries (hab.distinct hdistinct) (hab.entries hdistinct h)
  capacity := hbc.capacity.trans hab.capacity
  admissions := hbc.admissions.trans hab.admissions
  counts := hbc.counts.trans hab.counts

theorem Cleared.classes_subset {before after : Cache} (h : Cleared before after)
    (hdistinct : before.Distinct) : after.classes ⊆ before.classes := by
  rintro ⟨loader, name⟩ hkey
  rw [mem_classes (h.distinct hdistinct), Option.isSome_iff_exists] at hkey
  obtain ⟨slot, hslot⟩ := hkey
  rw [mem_classes hdistinct, h.slots hslot]
  rfl

theorem Cleared.size_eq {before after : Cache} (h : Cleared before after)
    (hdistinct : before.Distinct) :
    before.size = after.size + (before.classes \ after.classes).card := by
  have hsplit := Finset.card_sdiff_add_card_eq_card (h.classes_subset hdistinct)
  rw [card_classes hdistinct, card_classes (h.distinct hdistinct)] at hsplit
  omega

def classCount (tables : Table LoaderKey ClassTable) : Nat :=
  (tables.map fun entry => entry.2.length).foldr (· + ·) 0

theorem classCount_filter (p : LoaderKey × ClassTable → Bool)
    (tables : Table LoaderKey ClassTable) :
    classCount (tables.filter p) + classCount (tables.filter (!p ·)) = classCount tables := by
  induction tables with
  | nil => rfl
  | cons entry rest ih =>
    have hcons : ∀ l, classCount (entry :: l) = entry.2.length + classCount l := fun _ => rfl
    cases hp : p entry with
    | true =>
      rw [List.filter_cons_of_pos hp, List.filter_cons_of_neg (by simp [hp]), hcons, hcons]
      omega
    | false =>
      rw [List.filter_cons_of_neg (by simp [hp]), List.filter_cons_of_pos (by simp [hp]), hcons,
        hcons]
      omega

theorem filter_eq_singleton {tables : Table LoaderKey ClassTable} {loader : LoaderKey}
    {table : ClassTable} (hdistinct : tables.keys.Nodup) (h : tables.get? loader = some table) :
    (tables.filter fun entry => entry.1 = loader) = [(loader, table)] := by
  induction tables with
  | nil => cases h
  | cons entry rest ih =>
    rw [Table.keys, List.map_cons, List.nodup_cons] at hdistinct
    rw [Table.get?_cons] at h
    split at h
    · next hkey =>
      cases h
      have hrest : (rest.filter fun other => other.1 = loader) = [] := by
        rw [List.filter_eq_nil_iff]
        intro other hother heq
        apply hdistinct.1
        rw [hkey, ← of_decide_eq_true heq]
        exact List.mem_map_of_mem hother
      rw [List.filter_cons_of_pos (by simpa using hkey), hrest, ← hkey]
    · next hkey =>
      rw [List.filter_cons_of_neg (by simpa using hkey)]
      exact ih hdistinct.2 h

variable (cache : Cache) (loaders : Loaders) (loader : LoaderKey) (name : String)

theorem tables_get?_sweep :
    (cache.sweep loaders).1.tables.get? loader =
      if loaders.isLive loader then cache.tables.get? loader else none := by
  rw [tables_sweep]
  exact Table.get?_filter (fun key => loaders.isLive key) cache.tables loader

theorem cleared_sweep : Cleared cache (cache.sweep loaders).1 where
  slots h := by
    rw [slot?_sweep] at h
    split at h
    · exact h
    · cases h
  tables h := by
    rw [tables_get?_sweep] at h
    split at h
    · exact h
    · cases h
  distinct h := (h.filter fun key => loaders.isLive key).of_tables (tables_sweep cache loaders)
  entries hdistinct h := by
    have hsplit := classCount_filter (fun entry => loaders.isLive entry.1) cache.tables
    have hentries : (cache.sweep loaders).1.entries =
        cache.entries - classCount (cache.tables.filter fun entry => !loaders.isLive entry.1) := by
      simp only [sweep, forget, List.partition_eq_filter_filter]
      rfl
    have hsize : (cache.sweep loaders).1.size =
        classCount (cache.tables.filter fun entry => loaders.isLive entry.1) := by
      rw [size, tables_sweep, classCount]
    have hbefore : cache.size = classCount cache.tables := rfl
    omega
  capacity := by simp only [sweep, forget]
  admissions := by simp only [sweep, forget]
  counts := by simp only [sweep, forget]

theorem cleared_sweepIfDue : Cleared cache (cache.sweepIfDue loaders) := by
  rw [sweepIfDue]
  split
  · exact cleared_sweep cache loaders
  · exact Cleared.refl cache

theorem cleared_invalidate : Cleared cache (cache.invalidate loader name).1 := by
  rw [invalidate]
  cases hslot : cache.slot? loader name with
  | none => exact Cleared.refl cache
  | some slot =>
    have hdistinct (h : cache.Distinct) : ((cache.eraseSlot loader name).forget 1).Distinct :=
      (h.eraseSlot loader name).of_tables rfl
    refine ⟨?_, ?_, hdistinct, ?_, ?_, ?_, ?_⟩
    · intro other otherName found h
      rw [slot?_forget, slot?_eraseSlot] at h
      split at h
      · cases h
      · exact h
    · intro other h
      rwa [forget, isSome_tables_eraseSlot] at h
    · intro hbefore hentries
      have hclasses : ((cache.eraseSlot loader name).forget 1).classes =
          cache.classes.erase (loader, name) := classes_eraseSlot hbefore loader name
      have hmem : (loader, name) ∈ cache.classes := by
        rw [mem_classes hbefore, hslot]
        rfl
      rw [← card_classes (hdistinct hbefore), hclasses, Finset.card_erase_of_mem hmem,
        card_classes hbefore, ← hentries, forget, eraseSlot_eq]
    · rw [forget, eraseSlot_eq]
    · rw [forget, eraseSlot_eq]
    · rw [forget, eraseSlot_eq]

theorem cleared_evictLoader : Cleared cache (cache.evictLoader loader).1 := by
  rw [evictLoader]
  cases htable : cache.tables.get? loader with
  | none => exact Cleared.refl cache
  | some table =>
    refine ⟨?_, ?_, ?_, ?_, rfl, rfl, rfl⟩
    · intro other otherName found h
      simp only [slot?, forget, Table.get?_erase] at h ⊢
      split at h
      · cases h
      · exact h
    · intro other h
      simp only [forget, Table.get?_erase] at h
      split at h
      · cases h
      · exact h
    · intro h
      exact (h.filter fun key => key ≠ loader).of_tables rfl
    · intro hdistinct hentries
      have hsplit := classCount_filter (fun entry => entry.1 = loader) cache.tables
      rw [filter_eq_singleton hdistinct.loaders htable] at hsplit
      have hone : classCount [(loader, table)] = table.length := Nat.add_zero _
      have hrest : classCount (cache.tables.erase loader) =
          classCount (cache.tables.filter fun entry => !decide (entry.1 = loader)) := by
        simp only [Table.erase, ne_eq, decide_not]
      have hbefore : cache.size = classCount cache.tables := rfl
      change cache.entries - table.length = classCount (cache.tables.erase loader)
      omega

variable {cache loaders loader name}

/-! ## Using a class -/

def serves (cache : Cache) (loaders : Loaders) (loader : LoaderKey) : Bool :=
  (cache.tables.get? loader).isSome || loaders.isLive loader

def lookupUse? (cache : Cache) (loaders : Loaders) (edition : Edition) (loader : LoaderKey)
    (name : String) : Option Use :=
  match cache.slot? loader name with
  | some slot =>
    if slot.entry.generation < edition.generation then some ⟨(loader, name), .refresh⟩
    else some ⟨(loader, name), .hit⟩
  | none => if cache.serves loaders loader then some ⟨(loader, name), .admission⟩ else none

def recount (cache : Cache) (counts : CacheCounts) : Cache := { cache with counts }

@[simp] theorem capacity_recount (cache : Cache) (counts : CacheCounts) :
    (cache.recount counts).capacity = cache.capacity := rfl

structure SameStores (counts other : CacheCounts) : Prop where
  misses : counts.misses = other.misses
  evictions : counts.evictions = other.evictions

/-- What a use of a class does to a cache. Only an answer that is found as it is, or a class that is
admitted, is stamped with the number of admissions. -/
inductive Used (cache : Cache) (loaders : Loaders) (loader : LoaderKey) (name : String) :
    UseKind → Cache → Prop
  | hit {slot : CacheSlot} {counts : CacheCounts} (stored : cache.slot? loader name = some slot)
      (same : SameStores counts cache.counts) :
      Used cache loaders loader name .hit
        ((cache.setSlot loader name ⟨slot.entry, cache.admissions⟩).recount counts)
  | refresh {slot : CacheSlot} {entry : Entry} {counts : CacheCounts}
      (stored : cache.slot? loader name = some slot) (same : SameStores counts cache.counts) :
      Used cache loaders loader name .refresh
        ((cache.setSlot loader name ⟨entry, slot.lastUse⟩).recount counts)
  | admission {entry : Entry} {counts : CacheCounts}
      (missing : cache.slot? loader name = none) (served : cache.serves loaders loader = true)
      (same : SameStores counts { cache.counts with misses := cache.counts.misses + 1 }) :
      Used cache loaders loader name .admission ((cache.recount counts).store loader name entry)

theorem Used.missing {after : Cache}
    (hused : cache.Used loaders loader name .admission after) :
    cache.slot? loader name = none := by
  cases hused with
  | admission missing served same => exact missing

def answerSwept (cache : Cache) (loaders : Loaders) (edition : Edition) (loader : LoaderKey)
    (name : String) (bytes : Bytes) : Cache × Lookup :=
  match cache.slot? loader name with
  | some slot => cache.answerStored edition loader name bytes slot
  | none => cache.answerMissing (cache.serves loaders loader) edition loader name bytes

theorem used_answerSwept {edition : Edition} {use : Use} (bytes : Bytes)
    (h : cache.lookupUse? loaders edition loader name = some use) :
    use.key = (loader, name) ∧
      cache.Used loaders loader name use.kind
        (cache.answerSwept loaders edition loader name bytes).1 := by
  rw [lookupUse?] at h
  rw [answerSwept]
  cases hslot : cache.slot? loader name with
  | some slot =>
    simp only [hslot] at h ⊢
    rw [answerStored]
    split at h
    · next hstale =>
      cases h
      rw [if_pos hstale]
      refine ⟨rfl, ?_⟩
      split
      · exact .refresh hslot ⟨rfl, rfl⟩
      · exact .refresh hslot ⟨rfl, rfl⟩
    · next hstale =>
      cases h
      rw [if_neg hstale]
      exact ⟨rfl, .hit hslot ⟨rfl, rfl⟩⟩
  | none =>
    simp only [hslot] at h ⊢
    split at h
    · next hserved =>
      cases h
      rw [answerMissing, if_pos hserved]
      exact ⟨rfl, .admission hslot hserved ⟨rfl, rfl⟩⟩
    · cases h

theorem answerSwept_of_unused {edition : Edition} {bytes : Bytes}
    (h : cache.lookupUse? loaders edition loader name = none) :
    ∃ counts, (cache.answerSwept loaders edition loader name bytes).1 = cache.recount counts ∧
      SameStores counts cache.counts := by
  rw [lookupUse?] at h
  rw [answerSwept]
  cases hslot : cache.slot? loader name with
  | some slot =>
    simp only [hslot] at h
    split at h <;> cases h
  | none =>
    simp only [hslot] at h ⊢
    split at h
    · cases h
    · next hserved =>
      rw [answerMissing, if_neg hserved]
      exact ⟨_, rfl, rfl, rfl⟩

theorem used_touch {slot : CacheSlot} (h : cache.slot? loader name = some slot) :
    cache.Used loaders loader name .hit (cache.touch loader name slot) := .hit h ⟨rfl, rfl⟩

theorem used_peek {slot : CacheSlot} (h : cache.slot? loader name = some slot) :
    cache.peek loader name = (cache.touch loader name slot, some slot.entry) := by
  rw [peek, h]

theorem peek_of_none (h : cache.slot? loader name = none) :
    cache.peek loader name = (cache, none) := by
  rw [peek, h]

theorem findAny_cases (cache : Cache) (loaders : Loaders) (name : String) :
    cache.findAny loaders name = (cache, none) ∨
      ∃ loader slot, loaders.isLive loader = true ∧ cache.slot? loader name = some slot ∧
        cache.findAny loaders name =
          (cache.touch loader name slot, some (loader, slot.entry)) := by
  rw [findAny]
  split
  · exact Or.inl rfl
  · next holder rest hholders =>
    have hmem : holder ∈ cache.tables.filter fun entry =>
        loaders.isLive entry.1 && (entry.2.get? name).isSome := by
      rw [hholders]
      exact List.mem_cons_self
    have hlive := (Bool.and_eq_true_iff.1 (List.mem_filter.1 hmem).2).1
    cases hslot : cache.slot? holder.1 name with
    | none =>
      rw [peek_of_none hslot]
      exact Or.inl rfl
    | some slot =>
      rw [used_peek hslot]
      exact Or.inr ⟨holder.1, slot, hlive, hslot, rfl⟩

end Cache

namespace Agent

/-- The cache once an operation has dropped what it drops, before it answers. -/
def cleared (agent : Agent) : Operation → Cache
  | .load _ (some _) _ => agent.cache.sweepIfDue agent.loaders
  | .redefine loader name _ => (agent.cache.invalidate loader name).1.sweepIfDue agent.loaders
  | .invalidate loader name => (agent.cache.invalidate loader name).1
  | .evictLoader loader => (agent.cache.evictLoader loader).1
  | .sweep => (agent.cache.sweep agent.loaders).1
  | _ => agent.cache

def use? (agent : Agent) (operation : Operation) : Option Use :=
  match operation with
  | .load loader (some name) _ | .redefine loader name _ =>
    (agent.cleared operation).lookupUse? agent.loaders agent.edition loader name
  | .peek loader name => (agent.cache.peek loader name).2.map fun _ => ⟨(loader, name), .hit⟩
  | .findAny name =>
    (agent.cache.findAny agent.loaders name).2.map fun found => ⟨(found.1, name), .hit⟩
  | _ => none

variable {agent : Agent} {operation : Operation}

theorem cleared_cleared (agent : Agent) (operation : Operation) :
    agent.cache.Cleared (agent.cleared operation) := by
  cases operation with
  | load loader name bytes =>
    cases name with
    | none => exact .refl agent.cache
    | some name => exact agent.cache.cleared_sweepIfDue agent.loaders
  | redefine loader name bytes =>
    exact (agent.cache.cleared_invalidate loader name).trans (Cache.cleared_sweepIfDue _ _)
  | invalidate loader name => exact agent.cache.cleared_invalidate loader name
  | evictLoader loader => exact agent.cache.cleared_evictLoader loader
  | sweep => exact agent.cache.cleared_sweep agent.loaders
  | _ => exact .refl agent.cache

theorem used_step {use : Use} (h : agent.use? operation = some use) :
    (agent.cleared operation).Used agent.loaders use.key.1 use.key.2 use.kind
      (agent.step operation).1.cache := by
  cases operation with
  | load loader name bytes =>
    cases name with
    | none => cases h
    | some name =>
      obtain ⟨hkey, hused⟩ := Cache.used_answerSwept bytes h
      rw [hkey]
      exact hused
  | redefine loader name bytes =>
    obtain ⟨hkey, hused⟩ := Cache.used_answerSwept bytes h
    rw [hkey]
    exact hused
  | peek loader name =>
    simp only [use?, step, cleared] at h ⊢
    cases hslot : agent.cache.slot? loader name with
    | none =>
      rw [Cache.peek_of_none hslot] at h
      cases h
    | some slot =>
      rw [Cache.used_peek hslot] at h ⊢
      cases h
      exact Cache.used_touch hslot
  | findAny name =>
    simp only [use?, step, cleared] at h ⊢
    rcases agent.cache.findAny_cases agent.loaders name with hfind | ⟨loader, slot, -, hslot, hfind⟩
    · rw [hfind] at h
      cases h
    · rw [hfind] at h ⊢
      cases h
      exact Cache.used_touch hslot
  | _ => cases h

theorem step_of_unused (h : agent.use? operation = none) :
    ∃ counts, (agent.step operation).1.cache = (agent.cleared operation).recount counts ∧
      Cache.SameStores counts (agent.cleared operation).counts := by
  cases operation with
  | load loader name bytes =>
    cases name with
    | none => exact ⟨_, rfl, rfl, rfl⟩
    | some name => exact Cache.answerSwept_of_unused h
  | redefine loader name bytes => exact Cache.answerSwept_of_unused h
  | peek loader name =>
    simp only [use?, step, cleared] at h ⊢
    cases hslot : agent.cache.slot? loader name with
    | none =>
      rw [Cache.peek_of_none hslot]
      exact ⟨_, rfl, rfl, rfl⟩
    | some slot =>
      rw [Cache.used_peek hslot] at h
      cases h
  | findAny name =>
    simp only [use?, step, cleared] at h ⊢
    rcases agent.cache.findAny_cases agent.loaders name with hfind | ⟨loader, slot, -, hslot, hfind⟩
    · rw [hfind]
      exact ⟨_, rfl, rfl, rfl⟩
    · rw [hfind] at h
      cases h
  | retire handle =>
    simp only [step, retire, cleared]
    split <;> exact ⟨_, rfl, rfl, rfl⟩
  | _ => exact ⟨_, rfl, rfl, rfl⟩

end Agent

end ClassSieve
