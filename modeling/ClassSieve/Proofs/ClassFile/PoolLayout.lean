import ClassSieve.ClassFile.PoolDraft
import ClassSieve.Proofs.ClassFile.Reading

/-!
# The layout of a constant pool

Which tags an entry may have, from which version on, and how long its body is. Then where the
entries that a file lists come to stand in the pool of its reader: one after the other behind the
vacant first slot, with another vacant slot behind each wide entry.
-/
namespace ClassSieve.ClassFile
open ClassFile.Parser

section
variable {tag : UInt8} {layout : TagLayout}

/-- The tags of entries by the version from which on they occur, and by the bytes of their bodies; a
text has its length in front of it, and the numbers of eight bytes alone take two indices. -/
theorem tagLayout?_eq_some_iff : tagLayout? tag = some layout ↔
    (tag ∈ [1, 3, 4, 5, 6, 7, 8, 9, 10, 11, 12] ∧ layout.since = 45 ∨
      tag ∈ [15, 16, 18] ∧ layout.since = 51 ∨ tag ∈ [19, 20] ∧ layout.since = 53 ∨
      tag = 17 ∧ layout.since = 55) ∧
    (tag = 1 ∧ layout.width = none ∨ tag ∈ [7, 8, 16, 19, 20] ∧ layout.width = some 2 ∨
      tag = 15 ∧ layout.width = some 3 ∨
      tag ∈ [3, 4, 9, 10, 11, 12, 17, 18] ∧ layout.width = some 4 ∨
      tag ∈ [5, 6] ∧ layout.width = some 8) ∧
    (layout.wide = true ↔ tag ∈ [5, 6]) := by
  constructor
  · intro h
    have htag : tag = UInt8.ofNat tag.toNat := UInt8.ofNat_toNat.symm
    rw [tagLayout?] at h
    split at h <;> cases h
    all_goals
      rename_i heq
      rw [heq] at htag
      subst htag
      decide
  · obtain ⟨width, wide, since⟩ := layout
    rintro ⟨hsince, hwidth, hwide⟩
    simp only [List.mem_cons, List.not_mem_nil, or_false] at hsince hwidth hwide
    rcases hwidth with ⟨rfl, rfl⟩ | ⟨rfl | rfl | rfl | rfl | rfl, rfl⟩ | ⟨rfl, rfl⟩ |
      ⟨rfl | rfl | rfl | rfl | rfl | rfl | rfl | rfl, rfl⟩ | ⟨rfl | rfl, rfl⟩
    all_goals
      obtain rfl : wide = _ := by simpa using hwide
      obtain rfl : since = _ := by simpa using hsince
      rfl

theorem width_eq_none_iff (h : tagLayout? tag = some layout) :
    layout.width = none ↔ tag = textTag := by
  constructor
  · intro hwidth
    simpa [hwidth, textTag] using (tagLayout?_eq_some_iff.1 h).2.1
  · rintro rfl
    cases h
    rfl

end

namespace Constant

def tag : Constant → UInt8
  | text _ => textTag
  | classRef _ => classTag
  | other tag _ _ => tag

def isWide : Constant → Bool
  | other _ _ wide => wide
  | _ => false

def slot (pos : Nat) : Constant → Slot
  | text raw => .text (pos + 3) raw
  | classRef nameIndex => .classRef nameIndex
  | other tag _ _ => .other tag

def Fits (layout : TagLayout) : Constant → Prop
  | text raw => raw.length ≤ 65535
  | classRef _ => True
  | other tag body wide => tag ≠ classTag ∧ layout.width = some body.length ∧ layout.wide = wide

/-- Whether a file of version `major` may hold the entry. -/
def Legal (major : UInt16) (constant : Constant) : Prop :=
  ∃ layout, tagLayout? constant.tag = some layout ∧ layout.since ≤ major ∧ constant.Fits layout

theorem legal_text {major : UInt16} {raw : Bytes} (hmajor : 45 ≤ major)
    (hlength : raw.length ≤ 65535) : (text raw).Legal major :=
  ⟨⟨none, false, 45⟩, rfl, hmajor, hlength⟩

theorem legal_classRef {major : UInt16} (nameIndex : UInt16) (hmajor : 45 ≤ major) :
    (classRef nameIndex).Legal major :=
  ⟨⟨some 2, false, 45⟩, rfl, hmajor, trivial⟩

theorem legal_other {major : UInt16} {tag : UInt8} {body : Bytes} (layout : TagLayout)
    (htag : tagLayout? tag = some layout) (hsince : layout.since ≤ major) (hclass : tag ≠ classTag)
    (hwidth : layout.width = some body.length) : (other tag body layout.wide).Legal major :=
  ⟨layout, htag, hsince, hclass, hwidth, rfl⟩

def slotsOf : List Constant → Nat
  | [] => 0
  | constant :: rest => constant.slots + slotsOf rest

def layout (pos : Nat) : List Constant → List Slot
  | [] => []
  | constant :: rest =>
    constant.slot pos :: (if constant.isWide then [.vacant] else []) ++
      layout (pos + constant.encode.length) rest

theorem slots_eq (constant : Constant) : constant.slots = if constant.isWide then 2 else 1 := by
  cases constant with
  | text raw => rfl
  | classRef nameIndex => rfl
  | other tag body wide => cases wide <;> rfl

theorem slotsOf_append (constants more : List Constant) :
    slotsOf (constants ++ more) = slotsOf constants + slotsOf more := by
  induction constants with
  | nil => rw [slotsOf, List.nil_append, Nat.zero_add]
  | cons constant rest ih => rw [List.cons_append, slotsOf, slotsOf, ih, Nat.add_assoc]

theorem length_layout (pos : Nat) (constants : List Constant) :
    (layout pos constants).length = slotsOf constants := by
  induction constants generalizing pos with
  | nil => rfl
  | cons constant rest ih =>
    rw [layout, slotsOf, slots_eq, List.length_append, ih]
    cases constant.isWide <;> rfl

theorem layout_append (pos : Nat) (constants more : List Constant) :
    layout pos (constants ++ more) =
      layout pos constants ++ layout (pos + (constants.flatMap encode).length) more := by
  induction constants generalizing pos with
  | nil => rfl
  | cons constant rest ih =>
    rw [List.cons_append, layout, layout, ih, List.flatMap_cons, List.length_append,
      List.append_assoc, Nat.add_assoc]

/-- An entry stands as many slots behind the first one as the entries before it take. -/
theorem getElem?_layout (pos : Nat) (before after : List Constant) (constant : Constant) :
    (layout pos (before ++ constant :: after))[slotsOf before]? =
      some (constant.slot (pos + (before.flatMap encode).length)) := by
  rw [layout_append, ← length_layout pos before, List.getElem?_append_right (Nat.le_refl _),
    Nat.sub_self]
  rfl

end Constant

namespace Pool
variable {major : UInt16} (pos : Nat)

def ofConstants (constants : List Constant) : Pool :=
  #[.vacant] ++ (Constant.layout pos constants).toArray

theorem reads_readBody {layout : TagLayout} {constant : Constant}
    (htag : tagLayout? constant.tag = some layout) (hfits : constant.Fits layout) :
    ∃ body, constant.encode = constant.tag :: body ∧ layout.wide = constant.isWide ∧
      Reads (readBody constant.tag layout) (pos + 1) body (constant.slot pos) := by
  cases constant with
  | text raw =>
    obtain rfl : (⟨none, false, 45⟩ : TagLayout) = layout := Option.some.inj htag
    refine ⟨encodeU2 (UInt16.ofNat raw.length) ++ raw, rfl, rfl, (Reads.u2 _).bind ?_⟩
    have hlength : raw.length = (UInt16.ofNat raw.length).toNat := by
      rw [UInt16.toNat_ofNat']
      rw [Constant.Fits] at hfits
      omega
    exact .position (Reads.take raw hlength).map
  | classRef nameIndex =>
    obtain rfl : (⟨some 2, false, 45⟩ : TagLayout) = layout := Option.some.inj htag
    exact ⟨encodeU2 nameIndex, rfl, rfl, (Reads.u2 nameIndex).map⟩
  | other tag body wide =>
    obtain ⟨hclass, hwidth, hwide⟩ := hfits
    refine ⟨body, rfl, hwide, ?_⟩
    rw [readBody, hwidth]
    change Reads (if tag = classTag then _ else _) (pos + 1) body _
    rw [if_neg hclass]
    exact (Reads.skip body rfl).map

theorem reads_readEntry {constant : Constant} (h : constant.Legal major) :
    Reads (readEntry major) pos constant.encode (constant.slot pos, constant.isWide) := by
  obtain ⟨layout, htag, hsince, hfits⟩ := h
  obtain ⟨body, hencode, hwide, hbody⟩ := reads_readBody pos htag hfits
  rw [hencode, ← hwide]
  refine .position (Reads.bind (.u1 constant.tag) ?_)
  rw [htag]
  dsimp only
  rw [if_neg (UInt16.not_lt.2 hsince)]
  exact hbody.map

/-- Behind entries that it may hold, a pool is read on from the slots that are left. -/
theorem readEntries_append {constants : List Constant} (h : ∀ constant ∈ constants,
      constant.Legal major) (left : Nat) (pool : Pool) (rest : Bytes) (overrun : Cause) :
    readEntries major (Constant.slotsOf constants + left) pool
        ⟨pos, constants.flatMap Constant.encode ++ rest, overrun⟩ =
      readEntries major left (pool ++ (Constant.layout pos constants).toArray)
        ⟨pos + (constants.flatMap Constant.encode).length, rest, overrun⟩ := by
  induction constants generalizing pos pool with
  | nil => simp [Constant.slotsOf, Constant.layout]
  | cons constant more ih =>
    obtain ⟨hfirst, hmore⟩ := List.forall_mem_cons.1 h
    have hentry := reads_readEntry pos hfirst (more.flatMap Constant.encode ++ rest) overrun
    rw [Constant.slotsOf, Constant.slots_eq, List.flatMap_cons, List.append_assoc, Constant.layout]
    cases hwide : constant.isWide with
    | true =>
      rw [hwide] at hentry
      have hleft : (if true = true then 2 else 1) + Constant.slotsOf more + left =
          Constant.slotsOf more + left + 1 + 1 := by
        rw [if_pos rfl]
        omega
      rw [hleft, readEntries, run_bind]
      change (readEntry major >>= _) _ = _
      rw [run_bind, hentry]
      have htail := ih (pos + constant.encode.length) hmore
        ((pool.push (constant.slot pos)).push .vacant)
      simpa [Except.bind, Nat.add_assoc] using htail
    | false =>
      rw [hwide] at hentry
      have hleft : (if false = true then 2 else 1) + Constant.slotsOf more + left =
          Constant.slotsOf more + left + 1 := by
        rw [if_neg Bool.false_ne_true]
        omega
      rw [hleft, readEntries, run_bind]
      change (readEntry major >>= _) _ = _
      rw [run_bind, hentry]
      have htail := ih (pos + constant.encode.length) hmore (pool.push (constant.slot pos))
      simpa [Except.bind, Nat.add_assoc] using htail

theorem reads_readEntries {constants : List Constant} (h : ∀ constant ∈ constants,
      constant.Legal major) (pool : Pool) :
    Reads (readEntries major (Constant.slotsOf constants) pool) pos
      (constants.flatMap Constant.encode) (pool ++ (Constant.layout pos constants).toArray) :=
  fun rest overrun => readEntries_append pos h 0 pool rest overrun

theorem reads_read {constants : List Constant} (h : ∀ constant ∈ constants, constant.Legal major)
    (hcount : 1 + Constant.slotsOf constants ≤ 65535) :
    Reads (Pool.read major) pos
      (encodeU2 (UInt16.ofNat (1 + Constant.slotsOf constants)) ++
        constants.flatMap Constant.encode)
      (ofConstants (pos + 2) constants) := by
  refine (Reads.u2 _).bind ?_
  have hleft : (UInt16.ofNat (1 + Constant.slotsOf constants)).toNat - 1 =
      Constant.slotsOf constants := by
    rw [UInt16.toNat_ofNat']
    omega
  rw [hleft]
  exact reads_readEntries (pos + 2) h #[.vacant]

end Pool

end ClassSieve.ClassFile
