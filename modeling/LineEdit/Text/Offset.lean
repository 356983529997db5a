/-!
# Offsets into text

Places in a line are counted in characters, while the text is stored as UTF-8. A cut therefore
first turns a character offset into the byte position where that character begins; an offset past
the end stands for the end. The lemmas say that every cut is the cut of the list of characters.
-/
namespace LineEdit.Text

/-- The byte position where character number `i` begins, the end when there is no such character. -/
def position (s : String) (i : Nat) : s.Pos :=
  s.startPos.nextn i

def byteOffset (s : String) (i : Nat) : Nat :=
  (position s i).offset.byteIdx

/-- The characters from offset `i` up to but not including offset `j`, none when `j ≤ i`. -/
def slice (s : String) (i j : Nat) : String :=
  if i < j then s.extract (position s i) (position s j) else ""

/-- The text with the characters from `i` up to `j` replaced by `new`, which is inserted at `i`
when `j ≤ i`. -/
def splice (s : String) (i j : Nat) (new : String) : String :=
  (s.sliceTo (position s i)).copy ++ new ++ (s.sliceFrom (position s (max i j))).copy

theorem splits_position (s : String) (i : Nat) :
    (position s i).Splits (String.ofList (s.toList.take i)) (String.ofList (s.toList.drop i)) :=
  s.splits_nextn_startPos i

/-- A byte offset is the size of the characters before it. -/
theorem byteOffset_eq (s : String) (i : Nat) :
    byteOffset s i = (String.ofList (s.toList.take i)).utf8ByteSize := by
  rw [byteOffset, (splits_position s i).offset_eq_rawEndPos]
  rfl

/-- Between the positions after `a` and after `a ++ b` stands `b`. All lemmas on lists of characters
below come from this one and `splits_position`, where bytes are left behind. -/
theorem extract_eq_of_splits {s a b r t : String} {p q : s.Pos} (hp : p.Splits a r)
    (hq : q.Splits (a ++ b) t) : s.extract p q = b := by
  rw [← String.toByteArray_inj, String.toByteArray_extract, hp.offset_eq_rawEndPos,
    hq.offset_eq_rawEndPos, hq.eq_append, String.append_assoc, String.toByteArray_append]
  simp only [String.byteIdx_rawEndPos, String.utf8ByteSize_append]
  rw [← String.size_toByteArray, ← String.size_toByteArray]
  have shifted := ByteArray.extract_append_size_add (a := a.toByteArray)
    (b := (b ++ t).toByteArray) (i := 0) (j := b.toByteArray.size)
  rw [Nat.add_zero] at shifted
  rw [shifted, String.toByteArray_append, ByteArray.extract_append_eq_left rfl]

theorem toList_slice (s : String) (i j : Nat) :
    (slice s i j).toList = (s.toList.take j).drop i := by
  unfold slice
  split
  next h =>
    have cut : String.ofList (s.toList.take j) =
        String.ofList (s.toList.take i) ++ String.ofList ((s.toList.take j).drop i) := by
      rw [← String.ofList_append]
      congr 1
      conv => lhs; rw [← List.take_append_drop i (s.toList.take j)]
      rw [List.take_take, Nat.min_eq_left (Nat.le_of_lt h)]
    rw [extract_eq_of_splits (splits_position s i) (cut ▸ splits_position s j),
      String.toList_ofList]
  next h => simp [List.drop_take, Nat.sub_eq_zero_of_le (Nat.le_of_not_lt h)]

theorem length_slice (s : String) (i j : Nat) : (slice s i j).length = min j s.length - i := by
  rw [← String.length_toList, toList_slice, List.length_drop, List.length_take, String.length_toList]

theorem slice_append_slice (s : String) {i j k : Nat} (hij : i ≤ j) (hjk : j ≤ k) :
    slice s i j ++ slice s j k = slice s i k := by
  apply String.toList_injective
  have inner : s.toList.take j = (s.toList.take k).take j := by
    rw [List.take_take, Nat.min_eq_left hjk]
  rw [String.toList_append, toList_slice, toList_slice, toList_slice, inner]
  generalize s.toList.take k = cs
  rcases Nat.le_total j cs.length with long | short
  · have inside : i ≤ (cs.take j).length := by
      rw [List.length_take_of_le long]
      exact hij
    rw [← List.drop_append_of_le_length inside, List.take_append_drop]
  · rw [List.take_of_length_le short, List.drop_of_length_le short, List.append_nil]

theorem slice_zero_length (s : String) : slice s 0 s.length = s := by
  apply String.toList_injective
  rw [toList_slice, List.drop_zero, ← String.length_toList, List.take_length]

theorem slice_between (a b c : String) : slice (a ++ b ++ c) a.length (a ++ b).length = b := by
  apply String.toList_injective
  rw [toList_slice, String.toList_append, ← String.length_toList, ← String.length_toList,
    List.take_left, String.toList_append, List.drop_left]

theorem toList_splice (s : String) (i j : Nat) (new : String) :
    (splice s i j new).toList = s.toList.take i ++ new.toList ++ s.toList.drop (max i j) := by
  simp only [splice, (splits_position s i).copy_sliceTo_eq,
    (splits_position s (max i j)).copy_sliceFrom_eq, String.toList_append, String.toList_ofList]

theorem length_splice (s : String) (i j : Nat) (new : String) :
    (splice s i j new).length = min i s.length + new.length + (s.length - max i j) := by
  rw [← String.length_toList, toList_splice]
  simp [Nat.add_assoc, String.length_toList]

/-- A text before the one that is cut only moves the cut along. -/
theorem splice_append (s t : String) (i j : Nat) (new : String) :
    splice (s ++ t) (s.length + i) (s.length + j) new = s ++ splice t i j new := by
  apply String.toList_injective
  simp only [toList_splice, String.toList_append, ← String.length_toList, Nat.add_max_add_left,
    List.take_length_add_append, List.drop_length_add_append, List.append_assoc]

theorem splice_splice (s : String) {i : Nat} (inside : i ≤ s.length) (first second : String) :
    splice (splice s i i first) (i + first.length) (i + first.length) second =
      splice s i i (first ++ second) := by
  apply String.toList_injective
  have before : (s.toList.take i ++ first.toList).length = i + first.length := by
    rw [List.length_append, List.length_take, String.length_toList, String.length_toList,
      Nat.min_eq_left inside]
  have inserted (new : String) : (splice s i i new).toList =
      s.toList.take i ++ new.toList ++ s.toList.drop i := by
    rw [toList_splice, Nat.max_self]
  rw [toList_splice, Nat.max_self, inserted, inserted, ← before, List.take_left, List.drop_left,
    String.toList_append, List.append_assoc (s.toList.take i)]

theorem splice_length (s new : String) : splice s s.length s.length new = s ++ new := by
  apply String.toList_injective
  rw [toList_splice, String.toList_append, ← String.length_toList, Nat.max_self, List.take_length,
    List.drop_length, List.append_nil]

end LineEdit.Text
