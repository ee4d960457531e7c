import ClassSieve.Proofs.ClassFile.Reading

/-!
# Reading names by their indices

The parts of a header behind the pool, and the texts of members, are indices into the pool. Each is
read to what the pool answers for it.
-/
namespace ClassSieve.ClassFile
open ClassFile.Parser

variable {pool : Pool} {index : UInt16} {name : String} {pos : Nat}

theorem Outline.reads_readText {text : String} (h : ∀ offset, pool.text index offset = .ok text) :
    Reads (readText pool) pos (encodeU2 index) text := by
  refine .position (Reads.bind_last (.u2 index) ?_)
  rw [h]
  exact .pure text

namespace Header

def readNames (pool : Pool) (minor major : UInt16) : Parser Header := do
  let access ← u2
  let name ← readClassName pool
  let superName ← readSuperName pool ⟨access⟩ name
  let interfaces ← counted (readClassName pool)
  return { minor, major, access := ⟨access⟩, name, superName, interfaces }

theorem read_eq : read = do
    let (minor, major) ← readVersion
    let pool ← Pool.read major
    let header ← readNames pool minor major
    return (pool, header) := by
  simp [read, readNames]

theorem reads_readVersion {minor major : UInt16} (holdest : oldestMajor ≤ major)
    (hnewest : major ≤ newestMajor) :
    Reads readVersion pos (encodeU4 magic ++ encodeU2 minor ++ encodeU2 major) (minor, major) := by
  rw [List.append_assoc]
  refine .position (Reads.bind (.u4 magic) ?_)
  rw [if_neg (not_not_intro rfl)]
  refine Reads.bind (.u2 minor) (.position (Reads.bind_last (.u2 major) ?_))
  rw [if_neg (UInt16.not_lt.2 hnewest), if_neg (UInt16.not_lt.2 holdest)]
  exact .pure (minor, major)

theorem reads_readClassName (h : ∀ offset, pool.className index offset = .ok name) :
    Reads (readClassName pool) pos (encodeU2 index) name := by
  refine .position (Reads.bind_last (.u2 index) ?_)
  rw [h]
  exact .pure name

theorem reads_readSuperName {access : AccessFlags} {superName : String} (hindex : index ≠ 0)
    (h : ∀ offset, pool.className index offset = .ok superName) :
    Reads (readSuperName pool access name) pos (encodeU2 index) (some superName) := by
  refine .position (Reads.bind_last (.u2 index) ?_)
  rw [if_neg hindex, h]
  exact .pure (some superName)

theorem reads_readSuperName_none {access : AccessFlags}
    (h : name = rootClass ∨ access.isModule = true) :
    Reads (readSuperName pool access name) pos (encodeU2 0) none := by
  refine .position (Reads.bind_last (.u2 0) ?_)
  rw [if_pos rfl, if_pos (by simpa using h)]
  exact .pure none

end Header

end ClassSieve.ClassFile
