import ClassSieve.ClassFile.Word

/-!
# Files

What the program asks of the place where it runs, for any monad in which that is answered. Paths
are texts. A directory is seen as a listing: the names in it and below it, together with the ignore
files, which decide what a walk through it visits.
-/
namespace ClassSieve
open ClassFile

inductive Listing where
  | file
  | directory (ignore : Bytes) (entries : List (String × Listing))

def Listing.isDirectory : Listing → Bool
  | file => false
  | directory .. => true

def ignoreFileName : String := ".ignore"

structure Enclosing where
  ignore : Bytes
  names : List String

structure Place where
  listing : Listing
  above : List Enclosing

structure Files (m : Type → Type) where
  read : String → m (Option Bytes)
  place : String → m (Option Place)
  createDirectory : String → m Bool
  write : String → String → m Bool
  clock : m Nat

end ClassSieve
