import ClassSieve.Proofs.ClassFile.Following
import ClassSieve.Proofs.ClassFile.HeaderGrammar
import ClassSieve.Proofs.ClassFile.TextDecoding

/-!
# The places of a pool

What reading a pool by offsets keeps: each place of it marks what the slot at its index holds, and a
text that is marked ends before what is still to be read. So the accesses to the places go through,
and answer what the slots answer.
-/
namespace ClassSieve.ClassFile.Scanner
variable {file : Bytes} {pos : Nat} {pool : Pool} {places : Places}

theorem classTag_ne_textTag : classTag ≠ textTag := by decide

/-- The place of what a slot holds. A text and the length in front of it end at `consumed` or
before. -/
inductive Marks (file : Bytes) (consumed : Nat) : Slot → Place → Prop
  | vacant : Marks file consumed .vacant ⟨0, 0⟩
  | text {start : Nat} (hend : start + 2 + lengthAt file start ≤ consumed) :
    Marks file consumed
      (.text (start + 2) ((file.drop (start + 2)).take (lengthAt file start))) ⟨textTag, start⟩
  | classRef (nameIndex : UInt16) :
    Marks file consumed (.classRef nameIndex) ⟨classTag, nameIndex.toNat⟩
  | other {tag : UInt8} (htext : tag ≠ textTag) (hclass : tag ≠ classTag) :
    Marks file consumed (.other tag) ⟨tag, 0⟩

/-- The pool and the places when `left` more indices are to be filled. A place that is not filled
yet is a vacant one. -/
structure Charts (file : Bytes) (consumed left : Nat) (pool : Pool) (places : Places) : Prop where
  first : 0 < pool.size
  size : pool.size + left = max 1 places.size
  marks : ∀ {i : Nat} {place : Place}, places[i]? = some place →
    Marks file consumed (pool[i]?.getD .vacant) place

namespace Marks
variable {consumed later : Nat} {slot : Slot} {place : Place}

theorem mono (h : Marks file consumed slot place) (hle : consumed ≤ later) :
    Marks file later slot place := by
  cases h with
  | vacant => exact .vacant
  | text hend => exact .text (Nat.le_trans hend hle)
  | classRef nameIndex => exact .classRef nameIndex
  | other htext hclass => exact .other htext hclass

theorem tag_eq (h : Marks file consumed slot place) : slot.tag = place.tag := by
  cases h <;> rfl

theorem place_bounds (h : Marks file consumed slot place) :
    (place.tag = textTag → place.value + 2 + lengthAt file place.value ≤ consumed) ∧
      (place.tag = classTag → Short place.value) := by
  cases h with
  | vacant => simp [textTag, classTag]
  | text hend => simpa [textTag, classTag] using hend
  | classRef nameIndex =>
    have hshort : Short nameIndex.toNat := nameIndex.toNat_lt
    simpa [textTag, classTag] using hshort
  | other htext hclass => simp [htext, hclass]

end Marks

namespace Charts
variable {consumed later left : Nat} {slot : Slot} {place : Place}

theorem mono (h : Charts file consumed left pool places) (hle : consumed ≤ later) :
    Charts file later left pool places :=
  ⟨h.first, h.size, fun hplace => (h.marks hplace).mono hle⟩

theorem start (file : Bytes) (consumed count : Nat) :
    Charts file consumed (count - 1) #[.vacant] (Array.replicate count ⟨0, 0⟩) where
  first := Nat.one_pos
  size := by
    rw [Array.size_replicate]
    simp
    omega
  marks {i place} hplace := by
    obtain rfl : ⟨0, 0⟩ = place := by
      rw [Array.getElem?_replicate] at hplace
      split at hplace <;> cases hplace
      rfl
    have hvacant : (#[Slot.vacant] : Pool)[i]?.getD .vacant = .vacant := by
      cases i <;> rfl
    rw [hvacant]
    exact .vacant

theorem push (h : Charts file consumed (left + 1) pool places)
    (hmark : Marks file consumed slot place) :
    Charts file consumed left (pool.push slot) (places.setIfInBounds pool.size place) where
  first := by simp
  size := by
    have hsize := h.size
    simp
    omega
  marks {i marked} hplace := by
    rw [Array.getElem?_setIfInBounds] at hplace
    rw [Array.getElem?_push]
    split at hplace
    · next heq =>
      subst heq
      split at hplace <;> cases hplace
      rwa [if_pos rfl]
    · next hne =>
      rw [if_neg (Ne.symm hne)]
      exact h.marks hplace

theorem push_vacant (h : Charts file consumed (left + 1) pool places) :
    Charts file consumed left (pool.push .vacant) places where
  first := by simp
  size := by
    have hsize := h.size
    simp
    omega
  marks {i place} hplace := by
    have hsame : (pool.push .vacant)[i]?.getD .vacant = pool[i]?.getD .vacant := by
      rw [Array.getElem?_push]
      split
      · next heq => simp [heq]
      · rfl
    rw [hsame]
    exact h.marks hplace

end Charts

/-! ## Reading a pool -/

theorem follows_readValue {tag : UInt8} {layout : TagLayout} (htag : tagLayout? tag = some layout) :
    Follows file pos (readValue file tag layout) (Pool.readBody tag layout)
      fun next slot value => Marks file next slot ⟨tag, value⟩ := by
  rw [readValue, Pool.readBody]
  cases hwidth : layout.width with
  | none =>
    obtain rfl := (width_eq_none_iff htag).1 hwidth
    rw [if_pos rfl]
    refine .scan_position (Follows.u2.bind fun next length length' _ hlength => ?_)
    obtain ⟨rfl, rfl, hlength⟩ := hlength
    refine .parse_position ((Follows.skip_take _).bind fun next raw _ _ htaken => .pure ?_)
    obtain ⟨rfl, -, rfl⟩ := htaken
    rw [hlength]
    exact .text (Nat.le_refl _)
  | some width =>
    have htext : tag ≠ textTag := by
      rw [Ne, ← width_eq_none_iff htag, hwidth]
      exact Option.some_ne_none width
    rw [if_neg htext]
    refine .ite (fun hclass => ?_) fun hclass => ?_
    · subst hclass
      exact Tracks.u2.bind fun _ nameIndex _ => .pure (.classRef nameIndex)
    · exact (Tracks.skip width).bind fun _ _ _ => .pure (.other htext hclass)

theorem follows_readPlace (major : UInt16) :
    Follows file pos (readPlace file major) (Pool.readEntry major)
      fun next entry found => found.2 = entry.2 ∧ Marks file next entry.1 found.1 := by
  refine .position fun hpos => Tracks.u1.bind fun next tag _ => ?_
  cases htag : tagLayout? tag with
  | none => exact .failAt hpos
  | some layout =>
    refine .ite (fun _ => .failAt hpos) fun _ => ?_
    exact (follows_readValue htag).bind fun _ _ _ _ hmark => .pure ⟨rfl, hmark⟩

theorem follows_readPlaces (major : UInt16) {left index count : Nat}
    (h : Charts file pos left pool places) (hindex : index = pool.size)
    (hcount : count = places.size) (hshort : count < 0x10000) :
    Follows file pos (readPlaces file major count index places) (Pool.readEntries major left pool)
      fun next pool places => Charts file next 0 pool places := by
  induction left using Nat.strongRecOn generalizing pos index pool places with
  | ind left ih =>
  have hsize := h.size
  have hfirst := h.first
  rw [readPlaces]
  cases left with
  | zero =>
    rw [if_neg (by omega)]
    exact .pure h
  | succ left =>
    rw [if_pos (by omega), Pool.readEntries]
    refine .position fun hpos => (follows_readPlace major).bind ?_
    intro next entry found hle hfound
    obtain ⟨slot, _⟩ := entry
    obtain ⟨place, wide⟩ := found
    obtain ⟨rfl, hmark⟩ := hfound
    have hlater := h.mono hle
    cases wide with
    | false =>
      simp only [Bool.false_eq_true, if_false]
      rw [if_neg (by omega)]
      refine .require (by omega) (ih left (by omega) ?_ ?_ ?_)
      · rw [hindex]
        exact hlater.push hmark
      · simp [hindex]
      · simp [hcount]
    | true =>
      simp only [if_true]
      cases left with
      | zero =>
        -- The index that the fault names is the count itself, which was read from two bytes.
        have hshort' : Short (index + 2 - 1) := show index + 2 - 1 < 0x10000 by omega
        rw [if_pos (by omega)]
        refine .require hshort' ?_
        rw [hindex]
        exact .failAt hpos
      | succ left =>
        rw [if_neg (by omega)]
        refine .require (by omega) (ih left (by omega) ?_ ?_ ?_)
        · rw [hindex]
          exact (hlater.push hmark).push_vacant
        · simp [hindex]
        · simp [hcount]

theorem follows_readPool (major : UInt16) :
    Follows file pos (readPool file major) (Pool.read major)
      fun next pool places => Charts file next 0 pool places :=
  Tracks.u2.bind fun next count _ =>
    follows_readPlaces major (.start file next count.toNat) rfl (by simp) count.toNat_lt

/-! ## Accesses to a pool -/

section
variable {α : Type} {consumed bound offset : Nat} {index : UInt16}

theorem expect_outOfRange {tag : UInt8}
    (hout : ∀ place, places[index.toNat]? = some place → index = 0) :
    expect places index tag offset = .error (.fault (Pool.slot.outOfRange index offset)) := by
  rw [expect]
  split
  · next hplace => exact if_pos (hout _ hplace)
  · rfl

theorem expect_of_some {place : Place} {tag : UInt8}
    (hplace : places[index.toNat]? = some place) (hindex : index ≠ 0) :
    expect places index tag offset = if place.tag = tag then .ok place
      else .error (.fault (.malformed offset (.unexpectedPoolTag index.toNat place.tag))) := by
  rw [expect, hplace]
  exact if_neg hindex

namespace Charts

theorem slot_outOfRange (h : Charts file consumed 0 pool places)
    (hout : ∀ place, places[index.toNat]? = some place → index = 0) :
    pool.slot index offset = .error (Pool.slot.outOfRange index offset) := by
  have hsize := h.size
  rw [Pool.slot]
  split
  · next hslot =>
    have hlt := (Array.getElem?_eq_some_iff.1 hslot).1
    have hzero : index = 0 := by
      cases hplace : places[index.toNat]? with
      | some place => exact hout place hplace
      | none =>
        have hle := Array.getElem?_eq_none_iff.1 hplace
        exact UInt16.toNat_inj.1 (show index.toNat = 0 by omega)
    exact if_pos hzero
  · rfl

theorem slot_of_some {place : Place} (h : Charts file consumed 0 pool places) (offset : Nat)
    (hplace : places[index.toNat]? = some place) (hindex : index ≠ 0) :
    ∃ slot, pool.slot index offset = .ok slot ∧ Marks file consumed slot place := by
  have hsize := h.size
  have hlt : index.toNat < places.size := (Array.getElem?_eq_some_iff.1 hplace).1
  have hslot : pool[index.toNat]? = some pool[index.toNat] := Array.getElem?_eq_getElem (by omega)
  have hmark := h.marks hplace
  rw [hslot] at hmark
  refine ⟨pool[index.toNat], ?_, hmark⟩
  rw [Pool.slot, hslot]
  exact if_neg hindex

/-- An access to the slots that wants one tag, beside the same access to the places. -/
theorem access {P : α → Prop} {f : Slot → Except Fault α} {g : Place → Except Halt α} {tag : UInt8}
    (h : Charts file consumed 0 pool places) (hoffset : offset ≤ bound)
    (hother : ∀ slot, slot.tag ≠ tag →
      f slot = .error (.malformed offset (.unexpectedPoolTag index.toNat slot.tag)))
    (hwanted : ∀ slot place, Marks file consumed slot place → place.tag = tag →
      Agrees bound P (f slot) (g place)) :
    Agrees bound P (pool.slot index offset >>= f) (expect places index tag offset >>= g) := by
  have hfault (cause : Cause) : (Fault.malformed offset cause).AtMost bound := hoffset
  by_cases hout : ∀ place, places[index.toNat]? = some place → index = 0
  · rw [h.slot_outOfRange hout, expect_outOfRange hout]
    exact .fault (hfault _)
  · push Not at hout
    obtain ⟨place, hplace, hindex⟩ := hout
    obtain ⟨slot, hslot, hmark⟩ := h.slot_of_some offset hplace hindex
    rw [hslot, expect_of_some hplace hindex]
    split
    · next htag => exact hwanted slot place hmark htag
    · next htag =>
      rw [← hmark.tag_eq] at htag ⊢
      have hrefused : (Except.ok slot >>= f) = .error _ := hother slot htag
      rw [hrefused]
      exact .fault (hfault _)

theorem textSpan (h : Charts file consumed 0 pool places) (hconsumed : consumed ≤ file.length)
    (hoffset : offset ≤ bound) :
    Agrees bound (fun found => found.1 + found.2.length ≤ file.length)
      (pool.rawText index offset) (Scanner.textSpan file places index offset) := by
  rw [Pool.rawText, Scanner.textSpan]
  refine h.access hoffset (fun slot htag => ?_) fun slot place hmark htag => ?_
  · cases slot with
    | text => exact absurd rfl htag
    | vacant => rfl
    | classRef => rfl
    | other => rfl
  · cases hmark with
    | @text start hend =>
      have hfile := Nat.le_trans hend hconsumed
      dsimp only
      rw [require_of (Nat.le_of_add_right_le hfile), require_of hfile]
      refine .ok ?_
      rw [List.length_take]
      omega
    | vacant => exact absurd htag (by decide)
    | classRef => exact absurd htag classTag_ne_textTag
    | other htext => exact absurd htag htext

theorem text (h : Charts file consumed 0 pool places) (hconsumed : consumed ≤ file.length)
    (hoffset : offset ≤ bound) (hbound : file.length ≤ bound) :
    Agrees bound (fun _ => True) (pool.text index offset)
      (Scanner.text file places index offset) := by
  refine (h.textSpan hconsumed hoffset).bind fun found hfound => .mapError fun fault hfault => ?_
  obtain ⟨at', hdecode, rfl⟩ := Pool.decodeText_eq_error.1 hfault
  have hat := (Text.ModifiedUtf8.decode_eq_error_iff.1 hdecode).le_length
  show found.1 + at' ≤ bound
  omega

theorem className (h : Charts file consumed 0 pool places) (hconsumed : consumed ≤ file.length)
    (hoffset : offset ≤ bound) (hbound : file.length ≤ bound) :
    Agrees bound (fun _ => True) (pool.className index offset)
      (Scanner.className file places index offset) := by
  rw [Pool.className, Scanner.className]
  refine h.access hoffset (fun slot htag => ?_) fun slot place hmark htag => ?_
  · cases slot with
    | classRef => exact absurd rfl htag
    | vacant => rfl
    | text => rfl
    | other => rfl
  · cases hmark with
    | classRef nameIndex =>
      have hshort : Short nameIndex.toNat := nameIndex.toNat_lt
      dsimp only
      rw [require_of hshort, UInt16.ofNat_toNat]
      exact h.text hconsumed hoffset hbound
    | vacant => exact absurd htag (by decide)
    | text => exact absurd htag classTag_ne_textTag.symm
    | other _ hclass => exact absurd htag hclass

end Charts

end

end ClassSieve.ClassFile.Scanner
