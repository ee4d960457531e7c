import ClassSieve.ClassFile.ElementValue
import ClassSieve.Proofs.ClassFile.Reading

/-!
# Skipping element values

A value within the levels allowed to it is skipped exactly. The induction is on the value; the
levels follow its depth.
-/
namespace ClassSieve.ClassFile
open ClassFile.Parser

namespace ElementValue

mutual

def Legal : ElementValue → Prop
  | constant tag _ => tag ∈ AnnotationTable.constantTags
  | enumConstant .. => True
  | nested _ pairs => pairs.length ≤ 65535 ∧ LegalPairs pairs
  | array items => items.length ≤ 65535 ∧ LegalItems items

def LegalPairs : List (UInt16 × ElementValue) → Prop
  | [] => True
  | (_, value) :: rest => value.Legal ∧ LegalPairs rest

def LegalItems : List ElementValue → Prop
  | [] => True
  | value :: rest => value.Legal ∧ LegalItems rest

end

end ElementValue

namespace AnnotationTable
open ElementValue

theorem constantTags_eq :
    constantTags = [0x42, 0x43, 0x44, 0x46, 0x49, 0x4A, 0x53, 0x5A, 0x73, 0x63] := by
  decide +kernel

theorem toNat_count {n : Nat} (h : n ≤ 65535) : (UInt16.ofNat n).toNat = n := by
  rw [UInt16.toNat_ofNat']
  omega

mutual

theorem reads_skipValue : ∀ {value : ElementValue} {levels pos : Nat}, value.Legal →
    value.depth < levels → Reads (skipValue levels) pos value.encode ()
  | .constant tag index, levels + 1, pos, hlegal, _ => by
    rw [Legal] at hlegal
    refine .position (.u1_bind ?_)
    rw [if_pos hlegal]
    exact .skip (encodeU2 index) rfl
  | .enumConstant typeIndex nameIndex, levels + 1, pos, _, _ => by
    rw [encode, List.cons_append]
    refine .position (.u1_bind ?_)
    rw [if_neg (by decide), if_pos (by decide)]
    exact .skip (encodeU2 typeIndex ++ encodeU2 nameIndex) rfl
  | .nested typeIndex pairs, levels + 1, pos, hlegal, hdepth => by
    rw [Legal] at hlegal
    rw [depth, Nat.lt_succ_iff] at hdepth
    rw [encode, List.cons_append, List.cons_append, List.append_assoc]
    refine .position (.u1_bind ?_)
    rw [if_neg (by decide), if_neg (by decide), if_pos (by decide)]
    refine Reads.bind (.skip (encodeU2 typeIndex) rfl) (Reads.bind (.u2 _) ?_)
    rw [toNat_count hlegal.1]
    exact (reads_pairs hlegal.2 hdepth).map
  | .array items, levels + 1, pos, hlegal, hdepth => by
    rw [Legal] at hlegal
    rw [depth, Nat.lt_succ_iff] at hdepth
    rw [encode, List.cons_append]
    refine .position (.u1_bind ?_)
    rw [if_neg (by decide), if_neg (by decide), if_neg (by decide), if_pos (by decide)]
    refine Reads.bind (.u2 _) ?_
    rw [toNat_count hlegal.1]
    exact (reads_items hlegal.2 hdepth).map

theorem reads_pairs : ∀ {pairs : List (UInt16 × ElementValue)} {levels pos : Nat},
    LegalPairs pairs → depthOfPairs pairs ≤ levels →
      Reads (times pairs.length (do skip 2; skipValue levels)) pos (encodePairs pairs)
        (pairs.map fun _ => ())
  | [], _, _, _, _ => .pure []
  | (name, value) :: rest, levels, pos, hlegal, hdepth => by
    rw [LegalPairs] at hlegal
    rw [depthOfPairs, Nat.max_le] at hdepth
    rw [List.length_cons, times_succ, encodePairs]
    have hvalue {pos : Nat} : Reads (do skip 2; skipValue levels) pos
        (encodeU2 name ++ value.encode) () :=
      Reads.bind (.skip (encodeU2 name) rfl) (reads_skipValue hlegal.1 hdepth.1)
    exact hvalue.bind (reads_pairs hlegal.2 hdepth.2).map

theorem reads_items : ∀ {items : List ElementValue} {levels pos : Nat},
    LegalItems items → depthOfItems items ≤ levels →
      Reads (times items.length (skipValue levels)) pos (encodeItems items)
        (items.map fun _ => ())
  | [], _, _, _, _ => .pure []
  | value :: rest, levels, pos, hlegal, hdepth => by
    rw [LegalItems] at hlegal
    rw [depthOfItems, Nat.max_le] at hdepth
    rw [List.length_cons, times_succ, encodeItems]
    exact Reads.bind (reads_skipValue hlegal.1 hdepth.1) (reads_items hlegal.2 hdepth.2).map

end

theorem reads_skipPairs {pairs : List (UInt16 × ElementValue)} {levels pos : Nat}
    (hlegal : LegalPairs pairs) (hcount : pairs.length ≤ 65535)
    (hdepth : depthOfPairs pairs ≤ levels) :
    Reads (skipPairs levels) pos
      (encodeU2 (UInt16.ofNat pairs.length) ++ encodePairs pairs) () := by
  have hcounted : Reads (counted (do skip 2; skipValue levels)) pos
      (encodeU2 (UInt16.ofNat pairs.length) ++ encodePairs pairs) (pairs.map fun _ => ()) := by
    refine Reads.bind (.u2 _) ?_
    rw [toNat_count hcount]
    exact reads_pairs hlegal hdepth
  exact hcounted.map

end AnnotationTable

end ClassSieve.ClassFile
