import ClassSieve.Proofs.ClassFile.ElementValues
import ClassSieve.Proofs.ClassFile.Extension

/-!
# How deep values may nest

The values of a tree in the order in which they are written, each with its depth and with the offset
where it stands. A value is skipped exactly unless one of these lies below the limit; the first that
does is where the reader stops, before it looks at the tag. A body that ends within a value is a
fault of its length.
-/
namespace ClassSieve.ClassFile
open ClassFile.Parser

theorem Parser.Reads.error_of_front {α : Type} {p : Parser α} {pos : Nat} {bytes front : Bytes}
    {a : α} (h : Reads p pos bytes a) (hlocal : Local p) (hfront : front <+: bytes)
    (hne : front ≠ bytes) (overrun : Cause) :
    ∃ offset, p ⟨pos, front, overrun⟩ = .error (.malformed offset overrun) := by
  obtain ⟨more, rfl⟩ := hfront
  have hall := h [] overrun
  rw [List.append_nil] at hall
  cases hrun : p ⟨pos, front, overrun⟩ with
  | ok result =>
    obtain ⟨b, last⟩ := result
    -- What it leaves of the front and what was cut off would be left of all the bytes.
    have hextended := (hlocal.ok hrun more).symm.trans hall
    have hrest : last.rest ++ more = [] :=
      congrArg (fun result => result.2.rest) (Except.ok.inj hextended)
    rw [(List.append_eq_nil_iff.1 hrest).2, List.append_nil] at hne
    exact absurd rfl hne
  | error fault =>
    rcases hlocal.error hrun with ⟨offset, -, rfl⟩ | ⟨-, hmore⟩
    · exact ⟨offset, rfl⟩
    · cases (hmore more).symm.trans hall

namespace ElementValue

structure Place where
  depth : Nat
  offset : Nat
  deriving DecidableEq, Repr

mutual

/-- The places of a value that lies at the depth `level` and stands at the offset `pos`, and of the
values in it, in the order of their offsets. -/
def places (level pos : Nat) : ElementValue → List Place
  | constant .. | enumConstant .. => [⟨level, pos⟩]
  | nested _ pairs => ⟨level, pos⟩ :: placesOfPairs (level + 1) (pos + 5) pairs
  | array items => ⟨level, pos⟩ :: placesOfItems (level + 1) (pos + 3) items

def placesOfPairs (level pos : Nat) : List (UInt16 × ElementValue) → List Place
  | [] => []
  | (_, value) :: rest =>
    value.places level (pos + 2) ++ placesOfPairs level (pos + 2 + value.encode.length) rest

def placesOfItems (level pos : Nat) : List ElementValue → List Place
  | [] => []
  | value :: rest =>
    value.places level pos ++ placesOfItems level (pos + value.encode.length) rest

end

def firstBelow? (limit : Nat) (places : List Place) : Option Place :=
  places.find? fun place => limit < place.depth

variable {limit : Nat}

theorem firstBelow?_eq_none {places : List Place} :
    firstBelow? limit places = none ↔ ∀ place ∈ places, place.depth ≤ limit := by
  simp [firstBelow?]

theorem firstBelow?_append (places more : List Place) :
    firstBelow? limit (places ++ more) = (firstBelow? limit places).or (firstBelow? limit more) :=
  List.find?_append

theorem firstBelow?_of_le {place : Place} {places : List Place} (h : place.depth ≤ limit) :
    firstBelow? limit (place :: places) = firstBelow? limit places :=
  List.find?_cons_of_neg (by simpa using h)

mutual

theorem depth_le_of_places : ∀ {value : ElementValue} {level pos : Nat},
    firstBelow? limit (value.places level pos) = none → level + value.depth ≤ limit
  | .constant .., level, pos, h | .enumConstant .., level, pos, h =>
    firstBelow?_eq_none.1 h ⟨level, pos⟩ List.mem_cons_self
  | .nested _ pairs, level, pos, h => by
    rw [places] at h
    have hlevel : level ≤ limit := firstBelow?_eq_none.1 h ⟨level, pos⟩ List.mem_cons_self
    rw [firstBelow?_of_le hlevel] at h
    exact depth_le_of_placesOfPairs hlevel h
  | .array items, level, pos, h => by
    rw [places] at h
    have hlevel : level ≤ limit := firstBelow?_eq_none.1 h ⟨level, pos⟩ List.mem_cons_self
    rw [firstBelow?_of_le hlevel] at h
    exact depth_le_of_placesOfItems hlevel h

theorem depth_le_of_placesOfPairs : ∀ {pairs : List (UInt16 × ElementValue)} {level pos : Nat},
    level ≤ limit → firstBelow? limit (placesOfPairs (level + 1) pos pairs) = none →
      level + depthOfPairs pairs ≤ limit
  | [], _, _, hlevel, _ => hlevel
  | (_, value) :: rest, level, pos, hlevel, h => by
    rw [placesOfPairs, firstBelow?_append, Option.or_eq_none_iff] at h
    have hvalue := depth_le_of_places h.1
    have hrest := depth_le_of_placesOfPairs hlevel h.2
    rw [depthOfPairs]
    omega

theorem depth_le_of_placesOfItems : ∀ {items : List ElementValue} {level pos : Nat},
    level ≤ limit → firstBelow? limit (placesOfItems (level + 1) pos items) = none →
      level + depthOfItems items ≤ limit
  | [], _, _, hlevel, _ => hlevel
  | value :: rest, level, pos, hlevel, h => by
    rw [placesOfItems, firstBelow?_append, Option.or_eq_none_iff] at h
    have hvalue := depth_le_of_places h.1
    have hrest := depth_le_of_placesOfItems hlevel h.2
    rw [depthOfItems]
    omega

end

end ElementValue

namespace AnnotationTable
open ElementValue

variable {limit : Nat} {place : ElementValue.Place}

mutual

/-- A value that lies at the depth `level` is read with the levels that are left above the limit. -/
theorem fails_skipValue : ∀ {value : ElementValue} {levels level pos : Nat}, value.Legal →
    level + levels = limit + 1 → firstBelow? limit (value.places level pos) = some place →
      Fails (skipValue levels) pos value.encode (.malformed place.offset .annotationTooDeep)
  | value, 0, level, pos, _, hlevel, h => by
    have hplace : place = ⟨level, pos⟩ := by
      obtain rfl : level = limit + 1 := hlevel
      cases value <;>
        · rw [places, firstBelow?, List.find?_cons_of_pos (by simp)] at h
          exact (Option.some.inj h).symm
    rw [hplace]
    exact .position (.failAt pos _)
  | .constant .., levels + 1, level, pos, _, hlevel, h
  | .enumConstant .., levels + 1, level, pos, _, hlevel, h => by
    rw [places, firstBelow?_of_le (by dsimp only; omega)] at h
    cases h
  | .nested typeIndex pairs, levels + 1, level, pos, hlegal, hlevel, h => by
    rw [Legal] at hlegal
    rw [places, firstBelow?_of_le (by dsimp only; omega)] at h
    rw [encode, List.cons_append, List.cons_append, List.append_assoc]
    refine .position (Reads.fails (.u1 nestedTag) ?_)
    rw [if_neg (by decide), if_neg (by decide), if_pos rfl]
    refine Reads.fails (.skip (encodeU2 typeIndex) rfl) (Reads.fails (.u2 _) ?_)
    rw [toNat_count hlegal.1]
    exact (fails_pairs hlegal.2 (by omega) h).bind
  | .array items, levels + 1, level, pos, hlegal, hlevel, h => by
    rw [Legal] at hlegal
    rw [places, firstBelow?_of_le (by dsimp only; omega)] at h
    rw [encode, List.cons_append]
    refine .position (Reads.fails (.u1 arrayTag) ?_)
    rw [if_neg (by decide), if_neg (by decide), if_neg (by decide), if_pos rfl]
    refine Reads.fails (.u2 _) ?_
    rw [toNat_count hlegal.1]
    exact (fails_items hlegal.2 (by omega) h).bind

theorem fails_pairs : ∀ {pairs : List (UInt16 × ElementValue)} {levels level pos : Nat},
    LegalPairs pairs → level + levels = limit + 1 →
      firstBelow? limit (placesOfPairs level pos pairs) = some place →
      Fails (times pairs.length (do skip 2; skipValue levels)) pos (encodePairs pairs)
        (.malformed place.offset .annotationTooDeep)
  | (name, value) :: rest, levels, level, pos, hlegal, hlevel, h => by
    rw [LegalPairs] at hlegal
    rw [placesOfPairs, firstBelow?_append] at h
    rw [List.length_cons, times_succ, encodePairs]
    cases hfirst : firstBelow? limit (value.places level (pos + 2)) with
    | some found =>
      rw [hfirst] at h
      obtain rfl : place = found := (Option.some.inj h).symm
      have hvalue := fails_skipValue hlegal.1 hlevel hfirst
      exact ((Reads.fails (.skip (encodeU2 name) rfl) hvalue).append _).bind
    | none =>
      rw [hfirst] at h
      have hdepth := depth_le_of_places hfirst
      have hvalue : Reads (do skip 2; skipValue levels) pos (encodeU2 name ++ value.encode) () :=
        Reads.bind (.skip (encodeU2 name) rfl) (reads_skipValue hlegal.1 (by omega))
      refine hvalue.fails (Fails.bind (fails_pairs hlegal.2 hlevel ?_))
      rw [List.length_append, length_encodeU2, ← Nat.add_assoc]
      exact h

theorem fails_items : ∀ {items : List ElementValue} {levels level pos : Nat},
    LegalItems items → level + levels = limit + 1 →
      firstBelow? limit (placesOfItems level pos items) = some place →
      Fails (times items.length (skipValue levels)) pos (encodeItems items)
        (.malformed place.offset .annotationTooDeep)
  | value :: rest, levels, level, pos, hlegal, hlevel, h => by
    rw [LegalItems] at hlegal
    rw [placesOfItems, firstBelow?_append] at h
    rw [List.length_cons, times_succ, encodeItems]
    cases hfirst : firstBelow? limit (value.places level pos) with
    | some found =>
      rw [hfirst] at h
      obtain rfl : place = found := (Option.some.inj h).symm
      exact ((fails_skipValue hlegal.1 hlevel hfirst).append _).bind
    | none =>
      rw [hfirst] at h
      have hdepth := depth_le_of_places hfirst
      exact (reads_skipValue hlegal.1 (by omega)).fails (Fails.bind (fails_items hlegal.2 hlevel h))

end

/-- In a body that holds a value, the value is skipped exactly when nothing in it lies deeper than
32. Otherwise the fault stands at the first value that does. A body that ends within a value that
may be skipped is too short. -/
theorem skipValue_within_limit (value : ElementValue) (hlegal : value.Legal) (pos : Nat) :
    ((∀ place ∈ value.places 0 pos, place.depth ≤ 32) → ∀ more,
      skipValue levels ⟨pos, value.encode ++ more, .lengthMismatch⟩ =
        .ok ((), ⟨pos + value.encode.length, more, .lengthMismatch⟩)) ∧
    (∀ place, firstBelow? 32 (value.places 0 pos) = some place → ∀ more,
      skipValue levels ⟨pos, value.encode ++ more, .lengthMismatch⟩ =
        .error (.malformed place.offset .annotationTooDeep)) ∧
    ((∀ place ∈ value.places 0 pos, place.depth ≤ 32) → ∀ front, front <+: value.encode →
      front ≠ value.encode → ∃ offset,
        skipValue levels ⟨pos, front, .lengthMismatch⟩ =
          .error (.malformed offset .lengthMismatch)) := by
  have hreads (h : ∀ place ∈ value.places 0 pos, place.depth ≤ 32) :
      Reads (skipValue levels) pos value.encode () := by
    have hdepth := depth_le_of_places (firstBelow?_eq_none.2 h)
    rw [Nat.zero_add] at hdepth
    exact reads_skipValue hlegal (Nat.lt_succ_of_le hdepth)
  refine ⟨fun h more => hreads h more _, fun place h more => ?_, fun h front hfront hne => ?_⟩
  · have hlevels : 0 + levels = 32 + 1 := rfl
    exact fails_skipValue hlegal hlevels h more _
  · exact (hreads h).error_of_front (local_skipValue levels) hfront hne _

def ladder : Nat → ElementValue
  | 0 => .constant 0x73 1
  | n + 1 => .nested 2 [(3, .array [ladder n])]

theorem legal_ladder (n : Nat) : (ladder n).Legal := by
  induction n with
  | zero => simp [ladder, Legal, constantTags_eq]
  | succ n ih => simp [ladder, Legal, LegalPairs, LegalItems, ih]

theorem skipValue_within_limit_ladder :
    (∀ more, skipValue levels ⟨7, (ladder 16).encode ++ more, .lengthMismatch⟩ =
      .ok ((), ⟨170, more, .lengthMismatch⟩)) ∧
    ∀ more, skipValue levels ⟨7, (ladder 17).encode ++ more, .lengthMismatch⟩ =
      .error (.malformed 174 .annotationTooDeep) := by
  have hlength : (ladder 16).encode.length = 163 := by decide +kernel
  constructor
  · have hskipped := (skipValue_within_limit (ladder 16) (legal_ladder 16) 7).1 (by decide +kernel)
    rwa [hlength] at hskipped
  · exact (skipValue_within_limit (ladder 17) (legal_ladder 17) 7).2.1 ⟨33, 174⟩ (by decide +kernel)

end AnnotationTable

end ClassSieve.ClassFile
