import ClassSieve.Proofs.ClassFile.HeaderGrammar

/-!
# Every index of a pool

The slots of the entries share out the indices of a pool: at each index below the count an entry
begins or a wide one goes on. `Answers` tells what a pool answers for every index, in terms of the
entries alone. `Refused` tells with which entry a pool cannot go on, and why.
-/
namespace ClassSieve.ClassFile
open ClassFile.Parser

namespace Constant
variable {constants before after : List Constant} {constant : Constant} {index : UInt16}

/-- Whether `index` names the entry `constant`, which stands at the offset `start` in a file whose
first entry stands at `pos`. -/
def StartsAt (pos : Nat) (constants : List Constant) (index : UInt16) (constant : Constant)
    (start : Nat) : Prop :=
  ∃ before after, constants = before ++ constant :: after ∧ index.toNat = 1 + slotsOf before ∧
    start = pos + (before.flatMap encode).length

/-- Whether `index` is the second one of a wide entry. -/
def Continues (constants : List Constant) (index : UInt16) : Prop :=
  ∃ before constant after, constants = before ++ constant :: after ∧ constant.isWide = true ∧
    index.toNat = 2 + slotsOf before

inductive Shows (constants : List Constant) (index : UInt16) : UInt8 → Prop
  | entry {constant : Constant} (h : At constants index constant) :
    Shows constants index constant.tag
  | second (h : Continues constants index) : Shows constants index 0

theorem At.startsAt (h : At constants index constant) (pos : Nat) :
    ∃ start, StartsAt pos constants index constant start := by
  obtain ⟨before, after, hconstants, hindex⟩ := h
  exact ⟨_, before, after, hconstants, hindex, rfl⟩

theorem tag_slot (constant : Constant) (pos : Nat) : (constant.slot pos).tag = constant.tag := by
  cases constant <;> rfl

theorem exists_split {i : Nat} (h : i < slotsOf constants) :
    ∃ before constant after, constants = before ++ constant :: after ∧
      (i = slotsOf before ∨ constant.isWide = true ∧ i = slotsOf before + 1) := by
  induction constants generalizing i with
  | nil => exact absurd h (Nat.not_lt_zero i)
  | cons first rest ih =>
    rw [slotsOf] at h
    rcases Nat.lt_or_ge i first.slots with hi | hi
    · refine ⟨[], first, rest, rfl, ?_⟩
      rw [slots_eq] at hi
      cases hwide : first.isWide with
      | false =>
        rw [hwide, if_neg Bool.false_ne_true] at hi
        exact .inl (Nat.lt_one_iff.1 hi)
      | true =>
        rw [hwide, if_pos rfl] at hi
        have hcases : i = 0 ∨ i = 1 := by omega
        exact hcases.imp id fun hi => ⟨rfl, hi⟩
    · have hrest : i - first.slots < slotsOf rest := by omega
      obtain ⟨before, constant, after, rfl, hplace⟩ := ih hrest
      refine ⟨first :: before, constant, after, rfl, ?_⟩
      rw [slotsOf]
      exact hplace.imp (fun hi => by omega) (And.imp_right fun hi => by omega)

theorem exists_shows (hindex : index ≠ 0) (h : index.toNat < 1 + slotsOf constants) :
    ∃ tag, Shows constants index tag := by
  have hpos : index.toNat ≠ 0 := fun hzero => hindex (UInt16.toNat_inj.1 hzero)
  have hi : index.toNat - 1 < slotsOf constants := by omega
  obtain ⟨before, constant, after, hconstants, hplace | ⟨hwide, hplace⟩⟩ := exists_split hi
  · exact ⟨_, .entry ⟨before, after, hconstants, by omega⟩⟩
  · exact ⟨0, .second ⟨before, constant, after, hconstants, hwide, by omega⟩⟩

end Constant

open Constant

namespace Pool
variable {constants : List Constant} {constant : Constant} {index : UInt16} {pos offset start : Nat}

theorem size_ofConstants (pos : Nat) (constants : List Constant) :
    (ofConstants pos constants).size = 1 + slotsOf constants := by
  rw [ofConstants, Array.size_append, List.size_toArray, List.size_toArray, length_layout]
  rfl

theorem slot_of_startsAt (h : StartsAt pos constants index constant start) (offset : Nat) :
    (ofConstants pos constants).slot index offset = .ok (constant.slot start) := by
  obtain ⟨before, after, rfl, hindex, rfl⟩ := h
  refine slot_eq_ok.2 ⟨fun hzero => ?_, ?_⟩
  · rw [hzero, UInt16.toNat_zero] at hindex
    omega
  · rw [hindex, Nat.add_comm, getElem?_ofConstants, getElem?_layout]

theorem slot_of_continues (h : Continues constants index) (offset : Nat) :
    (ofConstants pos constants).slot index offset = .ok .vacant := by
  obtain ⟨before, constant, after, rfl, hwide, hindex⟩ := h
  have hlayout :
      (layout pos (before ++ constant :: after))[slotsOf before + 1]? = some .vacant := by
    rw [layout_append, ← length_layout pos before,
      List.getElem?_append_right (Nat.le_add_right _ 1), Nat.add_sub_cancel_left, layout, hwide]
    rfl
  refine slot_eq_ok.2 ⟨fun hzero => ?_, ?_⟩
  · rw [hzero, UInt16.toNat_zero] at hindex
    omega
  · have hsecond : index.toNat = slotsOf before + 1 + 1 := by omega
    rw [hsecond, getElem?_ofConstants, hlayout]

theorem slot_of_shows (pos : Nat) {tag : UInt8} (h : Shows constants index tag) :
    ∃ found : Slot, found.tag = tag ∧
      ∀ offset, (ofConstants pos constants).slot index offset = .ok found := by
  cases h with
  | entry h =>
    obtain ⟨start, hstart⟩ := h.startsAt pos
    exact ⟨_, tag_slot _ start, slot_of_startsAt hstart⟩
  | second h => exact ⟨.vacant, rfl, slot_of_continues h⟩

theorem slot_of_outside (pos : Nat) (h : index = 0 ∨ 1 + slotsOf constants ≤ index.toNat)
    (offset : Nat) : (ofConstants pos constants).slot index offset =
      .error (.malformed offset (.poolIndexOutOfRange index.toNat)) := by
  have hsize := size_ofConstants pos constants
  rw [slot]
  split
  · rename_i found hfound
    obtain ⟨hlt, -⟩ := Array.getElem?_eq_some_iff.1 hfound
    have hzero : index = 0 := h.resolve_right (by omega)
    rw [if_pos hzero]
    rfl
  · rfl

section
variable {pool : Pool} {found : Slot} {fault : Fault}

theorem text_of_slot (h : pool.slot index offset = .ok found) (htag : found.tag ≠ textTag) :
    pool.text index offset =
      .error (.malformed offset (.unexpectedPoolTag index.toNat found.tag)) := by
  rw [Pool.text, rawText, h]
  cases found with
  | text start raw => exact absurd rfl htag
  | _ => rfl

theorem className_of_slot (h : pool.slot index offset = .ok found) (htag : found.tag ≠ classTag) :
    pool.className index offset =
      .error (.malformed offset (.unexpectedPoolTag index.toNat found.tag)) := by
  rw [className, h]
  cases found with
  | classRef nameIndex => exact absurd rfl htag
  | _ => rfl

end

/-- What a pool with the entries `constants`, the first of which stands at the offset `pos`, answers
for the indices in the fields at the offsets `offset`. -/
structure Answers (pool : Pool) (pos : Nat) (constants : List Constant) : Prop where
  outside : ∀ index offset, index = 0 ∨ 1 + slotsOf constants ≤ index.toNat →
    pool.text index offset = .error (.malformed offset (.poolIndexOutOfRange index.toNat)) ∧
      pool.className index offset = .error (.malformed offset (.poolIndexOutOfRange index.toNat))
  text : ∀ index offset raw start, StartsAt pos constants index (.text raw) start →
    pool.text index offset = decodeText (start + 3) raw
  text_iff : ∀ index offset name,
    pool.text index offset = .ok name ↔ NamesText constants index name
  noText : ∀ index offset tag, Shows constants index tag → tag ≠ textTag →
    pool.text index offset = .error (.malformed offset (.unexpectedPoolTag index.toNat tag))
  /-- What is wrong with the name of a class is told as if the field named it. -/
  className : ∀ index offset nameIndex, At constants index (.classRef nameIndex) →
    pool.className index offset = pool.text nameIndex offset
  className_iff : ∀ index offset name,
    pool.className index offset = .ok name ↔ NamesClass constants index name
  noClass : ∀ index offset tag, Shows constants index tag → tag ≠ classTag →
    pool.className index offset = .error (.malformed offset (.unexpectedPoolTag index.toNat tag))
  shows : ∀ index, index ≠ 0 → index.toNat < 1 + slotsOf constants →
    ∃ tag, Shows constants index tag

theorem answers_ofConstants (pos : Nat) (constants : List Constant) :
    (ofConstants pos constants).Answers pos constants where
  outside index offset h := by
    have hslot := slot_of_outside pos h offset
    constructor
    · rw [Pool.text, rawText, hslot]
      rfl
    · rw [Pool.className, hslot]
      rfl
  text index offset raw start h := by
    rw [Pool.text, rawText, slot_of_startsAt h]
    rfl
  text_iff index offset name := text_eq_ok
  noText index offset tag h htag := by
    obtain ⟨found, rfl, hslot⟩ := slot_of_shows pos h
    exact text_of_slot (hslot offset) htag
  className index offset nameIndex h := by
    obtain ⟨start, hstart⟩ := h.startsAt pos
    rw [Pool.className, slot_of_startsAt hstart]
    rfl
  className_iff index offset name := className_eq_ok
  noClass index offset tag h htag := by
    obtain ⟨found, rfl, hslot⟩ := slot_of_shows pos h
    exact className_of_slot (hslot offset) htag
  shows index := exists_shows

/-- How the bytes behind the entries `before` break off a pool of the count `count`. -/
inductive Refused (major count : UInt16) (before : List Constant) : Bytes → Cause → Prop
  | unknown {tag : UInt8} (h : tagLayout? tag = none) :
    Refused major count before [tag] (.unknownPoolTag tag)
  | newer {tag : UInt8} {layout : TagLayout} (h : tagLayout? tag = some layout)
    (hmajor : major < layout.since) : Refused major count before [tag] (.tagNotInVersion tag major)
  | wide {last : Constant} (hlegal : last.Legal major) (hwide : last.isWide = true)
    (hcount : slotsOf before + 2 = count.toNat) :
    Refused major count before last.encode (.poolIndexOutOfRange count.toNat)

theorem fails_readEntries {major count : UInt16} {before : List Constant} {bytes : Bytes}
    {cause : Cause} (h : Refused major count before bytes cause) {left : Nat}
    (hleft : slotsOf before + left + 2 = count.toNat) {pool : Pool}
    (hpool : pool.size = 1 + slotsOf before) (pos : Nat) :
    Fails (readEntries major (left + 1) pool) pos bytes (.malformed pos cause) := by
  rw [readEntries]
  refine .position ?_
  cases h with
  | unknown h =>
    refine Fails.bind (.position (Reads.fails_last (.u1 _) ?_))
    rw [h]
    exact .failAt pos _
  | newer h hmajor =>
    refine Fails.bind (.position (Reads.fails_last (.u1 _) ?_))
    rw [h]
    dsimp only
    rw [if_pos hmajor]
    exact .failAt pos _
  | wide hlegal hwide hcount =>
    obtain rfl : left = 0 := by omega
    have hindex : pool.size + 1 = count.toNat := by omega
    refine Reads.fails_last (reads_readEntry pos hlegal) ?_
    rw [hwide, ← hindex]
    exact .failAt pos _

/-- Entries that a version allows are read exactly, and the pool then answers for every index by
them. Entries that cannot be gone on with are a fault at the offset of their tag. -/
theorem read_indexes (major : UInt16) (pos : Nat) (rest : Bytes) (overrun : Cause) :
    (∀ constants : List Constant, (∀ constant ∈ constants, constant.Legal major) →
      1 + slotsOf constants ≤ 65535 →
      ∃ pool, read major ⟨pos, HeaderLayout.encodePool constants ++ rest, overrun⟩ =
          .ok (pool, ⟨pos + (HeaderLayout.encodePool constants).length, rest, overrun⟩) ∧
        pool.Answers (pos + 2) constants) ∧
    ∀ (count : UInt16) (before : List Constant), (∀ constant ∈ before, constant.Legal major) →
      1 + slotsOf before < count.toNat →
      ∀ bytes cause, Refused major count before bytes cause →
        read major ⟨pos, encodeU2 count ++ (before.flatMap encode ++ (bytes ++ rest)), overrun⟩ =
          .error (.malformed (pos + 2 + (before.flatMap encode).length) cause) := by
  constructor
  · intro constants hlegal hcount
    exact ⟨_, reads_read pos hlegal hcount rest overrun, answers_ofConstants (pos + 2) constants⟩
  · intro count before hlegal hcount bytes cause hrefused
    obtain ⟨left, hleft⟩ : ∃ left, slotsOf before + left + 2 = count.toNat :=
      ⟨count.toNat - slotsOf before - 2, by omega⟩
    have hslots : count.toNat - 1 = slotsOf before + (left + 1) := by omega
    rw [read, run_bind, Reads.u2 count]
    change readEntries major (count.toNat - 1) #[.vacant] ⟨pos + 2, _, overrun⟩ = _
    rw [hslots, readEntries_append _ hlegal]
    exact fails_readEntries hrefused hleft (size_ofConstants (pos + 2) before) _ rest overrun

def longAndClass : List Constant :=
  [.other 5 [0, 0, 0, 0, 0, 0, 0, 42] true, .text [0x46, 0x6F, 0x6F], .classRef 3]

theorem read_indexes_longAndClass : ∃ pool last,
    read 52 ⟨8, HeaderLayout.encodePool longAndClass ++ [0, 0x21], .truncated⟩ = .ok (pool, last) ∧
      last.rest = [0, 0x21] ∧
      pool.className 4 30 = .ok "Foo" ∧
      pool.text 2 30 = .error (.malformed 30 (.unexpectedPoolTag 2 0)) ∧
      pool.className 5 30 = .error (.malformed 30 (.poolIndexOutOfRange 5)) ∧
    read 52 ⟨8, encodeU2 6 ++ (longAndClass.flatMap encode ++
        ([6, 0, 0, 0, 0, 0, 0, 0, 0] ++ [])), .truncated⟩ =
      .error (.malformed 28 (.poolIndexOutOfRange 6)) := by
  have hlong : (Constant.other 5 [0, 0, 0, 0, 0, 0, 0, 42] true).Legal 52 :=
    legal_other ⟨some 8, true, 45⟩ rfl (by decide) (by decide) rfl
  have hdouble : (Constant.other 6 [0, 0, 0, 0, 0, 0, 0, 0] true).Legal 52 :=
    legal_other ⟨some 8, true, 45⟩ rfl (by decide) (by decide) rfl
  have hlegal : ∀ constant ∈ longAndClass, constant.Legal 52 := by
    simp only [longAndClass, List.forall_mem_cons]
    exact ⟨hlong, legal_text (by decide) (by decide), legal_classRef 3 (by decide), by simp⟩
  obtain ⟨pool, hread, hanswers⟩ :=
    (read_indexes 52 8 [0, 0x21] .truncated).1 longAndClass hlegal (by decide)
  refine ⟨pool, _, hread, rfl, ?_, ?_, ?_, ?_⟩
  · refine (hanswers.className_iff 4 30 "Foo").2 ⟨3, ⟨longAndClass.take 2, [], rfl, rfl⟩, ?_⟩
    exact ⟨_, ⟨longAndClass.take 1, [.classRef 3], rfl, rfl⟩, by decide⟩
  · exact hanswers.noText 2 30 0 (.second ⟨[], _, _, rfl, rfl, rfl⟩) (by decide)
  · exact (hanswers.outside 5 30 (by decide)).2
  · exact (read_indexes 52 8 [] .truncated).2 6 longAndClass hlegal (by decide) _ _
      (.wide hdouble rfl rfl)

end Pool

end ClassSieve.ClassFile
