/-!
# Words of a class file

A class file is a list of bytes, and its numbers stand in it with the highest byte first.
`encodeU2` and `encodeU4` write such a number and `bigEndian` reads it back.
-/
namespace ClassSieve.ClassFile

abbrev Bytes := List UInt8

def bigEndian (bytes : Bytes) : Nat := bytes.foldl (fun value b => 256 * value + b.toNat) 0

def encodeU2 (n : UInt16) : Bytes := [UInt8.ofNat (n.toNat / 0x100), UInt8.ofNat n.toNat]

def encodeU4 (n : UInt32) : Bytes :=
  [UInt8.ofNat (n.toNat / 0x1000000), UInt8.ofNat (n.toNat / 0x10000),
    UInt8.ofNat (n.toNat / 0x100), UInt8.ofNat n.toNat]

theorem bigEndian_encodeU2 (n : UInt16) : bigEndian (encodeU2 n) = n.toNat := by
  have := n.toNat_lt
  simp [bigEndian, encodeU2]
  omega

theorem bigEndian_encodeU4 (n : UInt32) : bigEndian (encodeU4 n) = n.toNat := by
  have := n.toNat_lt
  simp [bigEndian, encodeU4]
  omega

@[simp] theorem length_encodeU2 (n : UInt16) : (encodeU2 n).length = 2 := rfl
@[simp] theorem length_encodeU4 (n : UInt32) : (encodeU4 n).length = 4 := rfl

def asciiBytes (text : String) : Bytes := text.toList.map fun c => UInt8.ofNat c.toNat

end ClassSieve.ClassFile
