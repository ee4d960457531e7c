import ClassSieve.Proofs.Loaders.Liveness
import Mathlib.Data.List.Perm.Subperm

/-!
# The keys that are live

Each slot with a live loader stands for one key, so counting the live slots counts the live keys.
-/
namespace ClassSieve.Loaders
variable {loaders : Loaders} {key : LoaderKey}

def liveKey? (place : LoaderSlot × Nat) : Option LoaderKey :=
  if place.1.live then some ⟨place.2, place.1.generation⟩ else none

def liveKeys (loaders : Loaders) : List LoaderKey := loaders.slots.toList.zipIdx.filterMap liveKey?

theorem liveKey?_eq_some {place : LoaderSlot × Nat} :
    liveKey? place = some key ↔ place = (⟨key.generation, true⟩, key.slot) := by
  obtain ⟨⟨generation, live⟩, slot⟩ := place
  obtain ⟨keySlot, keyGeneration⟩ := key
  cases live <;> simp [liveKey?, and_comm]

theorem mem_liveKeys : key ∈ loaders.liveKeys ↔ loaders.isLive key = true := by
  rw [liveKeys, List.mem_filterMap, isLive_iff]
  simp only [liveKey?_eq_some, exists_eq_right]
  rw [List.mem_zipIdx_iff_getElem?, Array.getElem?_toList]

theorem nodup_liveKeys (loaders : Loaders) : loaders.liveKeys.Nodup := by
  have hplaces : (loaders.slots.toList.zipIdx.map Prod.snd).Nodup := by
    rw [List.zipIdx_map_snd]
    exact List.nodup_range'
  apply hplaces.of_map.filterMap
  intro place other found hplace hother
  exact (liveKey?_eq_some.1 hplace).trans (liveKey?_eq_some.1 hother).symm

theorem length_liveKeys (loaders : Loaders) : loaders.liveKeys.length = loaders.liveCount := by
  have hsome : (fun place => (liveKey? place).isSome) = LoaderSlot.live ∘ Prod.fst := by
    funext place
    cases hlive : place.1.live <;> simp [liveKey?, hlive]
  calc
    loaders.liveKeys.length = loaders.slots.toList.zipIdx.countP (LoaderSlot.live ∘ Prod.fst) := by
      rw [liveKeys, List.length_filterMap_eq_countP, hsome]
    _ = loaders.slots.toList.countP LoaderSlot.live := by
      rw [← List.countP_map, List.zipIdx_map_fst]
    _ = loaders.liveCount := by rw [Array.countP_toList, liveCount]

theorem length_le_liveCount {keys : List LoaderKey} (hnodup : keys.Nodup)
    (hlive : ∀ key ∈ keys, loaders.isLive key = true) : keys.length ≤ loaders.liveCount := by
  rw [← length_liveKeys]
  apply (List.subperm_of_subset hnodup _).length_le
  intro key hkey
  exact mem_liveKeys.2 (hlive key hkey)

theorem liveCount_eq_length {keys : List LoaderKey} (hnodup : keys.Nodup)
    (hlive : ∀ key, key ∈ keys ↔ loaders.isLive key = true) : loaders.liveCount = keys.length := by
  rw [← length_liveKeys]
  apply List.Perm.length_eq
  rw [List.perm_ext_iff_of_nodup (nodup_liveKeys loaders) hnodup]
  intro key
  rw [mem_liveKeys, hlive]

end ClassSieve.Loaders
