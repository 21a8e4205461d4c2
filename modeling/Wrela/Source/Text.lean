import Wrela.Wire.Utf8

/-!
# Source positions and text

The file, range and span records shared by every stage, and the notion of blank text they use.
-/

namespace Wrela.Source

open List

structure FileId where
  val : UInt32
deriving DecidableEq, Repr

structure TextRange where
  start : UInt32
  stop : UInt32
deriving DecidableEq, Repr

/-- The checked constructor of `TextRange`; a range that ends before it starts is refused. -/
def TextRange.new (start stop : UInt32) : Option TextRange :=
  if start > stop then none else some ⟨start, stop⟩

structure Span where
  file : FileId
  range : TextRange
deriving DecidableEq, Repr

theorem TextRange.new_eq_some {start stop : UInt32} {range : TextRange} :
    TextRange.new start stop = some range ↔ start ≤ stop ∧ range = ⟨start, stop⟩ := by
  unfold TextRange.new
  split
  · rename_i h
    simp [UInt32.not_le.2 h]
  · rename_i h
    simp [UInt32.not_lt.1 h, eq_comm]

/-- The characters with the Unicode `White_Space` property. -/
def isWhitespace (char : Char) : Bool :=
  let code := char.toNat
  (9 ≤ code && code ≤ 13) || code == 32 || code == 0x85 || code == 0xa0 || code == 0x1680 ||
    (0x2000 ≤ code && code ≤ 0x200a) || code == 0x2028 || code == 0x2029 || code == 0x202f ||
    code == 0x205f || code == 0x3000

/-- Text whose trimmed form is empty. -/
def isBlank (text : String) : Bool := text.toList.all isWhitespace

def byteLength (text : String) : ℕ := (Wire.utf8Bytes text).length

/-- The parts of a split list hold elements of the list, none of them the separator. -/
theorem mem_of_mem_splitOn {α : Type} [DecidableEq α] {separator item : α} {items part : List α}
    (hpart : part ∈ items.splitOn separator) (hitem : item ∈ part) :
    item ∈ items ∧ item ≠ separator := by
  induction items generalizing part with
  | nil => simp_all
  | cons head items ih =>
    rw [splitOn_cons_eq_if_modifyHead] at hpart
    split at hpart
    · rcases mem_cons.1 hpart with rfl | hpart
      · cases hitem
      · have htail := ih hpart hitem
        exact ⟨mem_cons_of_mem _ htail.1, htail.2⟩
    · rename_i hhead
      obtain ⟨first, rest, hsplit⟩ := exists_cons_of_ne_nil (splitOn_ne_nil separator items)
      rw [hsplit, modifyHead_cons] at hpart
      rcases mem_cons.1 hpart with rfl | hpart
      · rcases mem_cons.1 hitem with rfl | hitem
        · exact ⟨mem_cons_self, by simpa using hhead⟩
        · have htail := ih (hsplit ▸ mem_cons_self) hitem
          exact ⟨mem_cons_of_mem _ htail.1, htail.2⟩
      · have htail := ih (hsplit ▸ mem_cons_of_mem _ hpart) hitem
        exact ⟨mem_cons_of_mem _ htail.1, htail.2⟩

end Wrela.Source
