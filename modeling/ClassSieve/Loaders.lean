/-!
# Class loaders

A loader is known by a key: a slot and the generation of that slot. Retiring a loader moves its
slot to the next generation, so its key is never live again, and frees the slot for the next
loader. Slot 0 belongs to the boot loader, which is always live. The epoch counts retirements.
-/
namespace ClassSieve

structure LoaderKey where
  /-- Slots are counted from 0 in the order in which they were made, so they stay below 2^32 as long
  as fewer loaders than that were alive at one time. -/
  slot : Nat
  generation : UInt32
  deriving DecidableEq, Repr

namespace LoaderKey

def boot : LoaderKey := ⟨0, 0⟩

def compare (a b : LoaderKey) : Ordering :=
  (Ord.compare a.slot b.slot).then (Ord.compare a.generation b.generation)

end LoaderKey

structure LoaderSlot where
  generation : UInt32
  live : Bool
  deriving DecidableEq, Repr

structure Loaders where
  slots : Array LoaderSlot
  free : List Nat
  epoch : Nat
  deriving Repr

namespace Loaders

def initial : Loaders := ⟨#[⟨0, true⟩], [], 0⟩

def isLive (loaders : Loaders) (key : LoaderKey) : Bool :=
  match loaders.slots[key.slot]? with
  | some slot => slot.live && slot.generation = key.generation
  | none => false

def liveCount (loaders : Loaders) : Nat := loaders.slots.countP (·.live)

def capacity (loaders : Loaders) : Nat := loaders.slots.size

/-- A key for a new loader: in the slot freed last, or else in a new one. -/
def register (loaders : Loaders) : LoaderKey × Loaders :=
  match loaders.free with
  | slot :: free =>
    let generation := match loaders.slots[slot]? with
      | some held => held.generation
      | none => 0
    (⟨slot, generation⟩,
      { loaders with
        slots := loaders.slots.modify slot fun held => { held with live := true }
        free })
  | [] => (⟨loaders.slots.size, 0⟩, { loaders with slots := loaders.slots.push ⟨0, true⟩ })

/-- Ends the life of a loader; the boot loader and one that is not live are left as they are. -/
def retire (loaders : Loaders) (key : LoaderKey) : Loaders :=
  if key = .boot || !loaders.isLive key then loaders
  else {
    slots := loaders.slots.modify key.slot fun held => ⟨held.generation + 1, false⟩
    free := key.slot :: loaders.free
    epoch := loaders.epoch + 1 }

end Loaders

end ClassSieve
