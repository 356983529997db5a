import LineEdit.History.Archive
import Mathlib.Data.List.DropRight

/-!
# What a history file keeps

A file gives back the entries that were written to it, but for the empty ones and those with a
character that line ends are made of. Written and read a second time, what it gave back stays as it
is. The reader and the writer do not have the same line ends: a carriage return that does not stand
right before a line feed is part of an entry for the one and ends a line for the other. So a file
from elsewhere keeps its entries, when they are written anew, unless it has such a carriage return.
-/
namespace LineEdit

namespace Text

variable {read line cs : List Char}

/-- A line without characters of line ends is read as it was written. The lines of a whole file
follow from this one after the other. -/
theorem linesFrom_append_lineFeed (returnless : read.head? ≠ some '\r')
    (single : line.all (!isLineBreak ·) = true) (rest : List Char) :
    linesFrom read (line ++ '\n' :: rest) = (read.reverse ++ line) :: linesFrom [] rest := by
  induction line generalizing read with
  | nil => simp [linesFrom, returnless]
  | cons c line ih =>
    rw [List.all_cons, Bool.and_eq_true] at single
    obtain ⟨plain, single⟩ := single
    simp only [isLineBreak, Bool.not_eq_true', Bool.or_eq_false_iff,
      decide_eq_false_iff_not] at plain
    rw [List.cons_append, linesFrom, if_neg plain.2, ih (by simpa using plain.1) single]
    simp

theorem lines_join {entries : List String} (single : ∀ e ∈ entries, isSingleLine e = true) :
    lines (String.join (entries.map (· ++ "\n"))) = entries := by
  induction entries with
  | nil => rfl
  | cons e entries ih =>
    have returnless : ([] : List Char).head? ≠ some '\r' := nofun
    have first := linesFrom_append_lineFeed returnless (single e List.mem_cons_self)
      (String.join (entries.map (· ++ "\n"))).toList
    have others := ih fun e mem => single e (List.mem_cons_of_mem _ mem)
    have whole : (String.join ((e :: entries).map (· ++ "\n"))).toList =
        e.toList ++ '\n' :: (String.join (entries.map (· ++ "\n"))).toList := by
      simp
    rw [lines] at others ⊢
    rw [whole, first, List.map_cons, others]
    simp

theorem lineFeed_not_mem_of_mem_linesFrom (unread : '\n' ∉ read) (mem : line ∈ linesFrom read cs) :
    '\n' ∉ line := by
  induction cs generalizing read with
  | nil =>
    rw [linesFrom] at mem
    split at mem
    · exact absurd mem List.not_mem_nil
    · rw [List.mem_singleton.mp mem, List.mem_reverse]
      exact unread
  | cons c cs ih =>
    rw [linesFrom] at mem
    split at mem
    · rcases List.mem_cons.mp mem with rfl | mem
      · rw [List.mem_reverse]
        split
        · exact fun inside => unread (List.mem_of_mem_tail inside)
        · exact unread
      · exact ih List.not_mem_nil mem
    · next other => exact ih (by simp [unread, Ne.symm other]) mem

/-- Every carriage return stands right before a line feed. -/
def ReturnsInEnds (cs : List Char) : Prop :=
  ∀ i, cs[i]? = some '\r' → cs[i + 1]? = some '\n'

theorem returnsInEnds_nil : ReturnsInEnds [] := nofun

theorem returnsInEnds_cons (c : Char) (cs : List Char) :
    ReturnsInEnds (c :: cs) ↔ (c = '\r' → cs.head? = some '\n') ∧ ReturnsInEnds cs := by
  constructor
  · intro ends
    constructor
    · intro here
      simpa [List.head?_eq_getElem?] using ends 0 (by simp [here])
    · intro i there
      simpa using ends (i + 1) (by simpa using there)
  · rintro ⟨here, later⟩ i there
    cases i with
    | zero => simpa [List.head?_eq_getElem?] using here (by simpa using there)
    | succ i => simpa using later i (by simpa using there)

/-- What is read up to some place has a carriage return only at its end, if a line feed follows. -/
theorem returnsInEnds_append (unread : '\n' ∉ read) (cs : List Char) :
    ReturnsInEnds (read.reverse ++ cs) ↔
      '\r' ∉ read.tail ∧ (read.head? = some '\r' → cs.head? = some '\n') ∧ ReturnsInEnds cs := by
  induction read generalizing cs with
  | nil => simp
  | cons c read ih =>
    rw [List.mem_cons, not_or] at unread
    have other : c ≠ '\n' := Ne.symm unread.1
    -- No line feed comes next, so what is read before the character has no carriage return at all.
    have inner : '\r' ∉ read.tail ∧ (read.head? = some '\r' → (c :: cs).head? = some '\n') ↔
        '\r' ∉ read := by
      cases read with
      | nil => simp
      | cons d read => simp [other, and_comm, eq_comm]
    rw [List.reverse_cons, List.append_assoc, List.singleton_append, ih unread.2, ← and_assoc,
      inner, returnsInEnds_cons]
    simp

/-- No line has a carriage return exactly if all of them belong to line ends. The induction follows
the reader of lines, with what it has read of the line it is in. -/
theorem forall_linesFrom_iff (unread : '\n' ∉ read) (cs : List Char) :
    (∀ line ∈ linesFrom read cs, '\r' ∉ line) ↔ ReturnsInEnds (read.reverse ++ cs) := by
  induction cs generalizing read with
  | nil =>
    rw [linesFrom, returnsInEnds_append unread]
    cases read <;> simp [returnsInEnds_nil, eq_comm, and_comm]
  | cons c cs ih =>
    rw [linesFrom]
    split
    next feed =>
      subst feed
      have rest := ih (List.not_mem_nil : '\n' ∉ [])
      rw [returnsInEnds_append unread, returnsInEnds_cons, List.forall_mem_cons, rest]
      cases read with
      | nil => simp
      | cons d read => by_cases own : d = '\r' <;> simp [own, eq_comm]
    next other =>
      rw [ih (by simp [unread, Ne.symm other])]
      simp

theorem isSingleLine_iff (s : String) :
    isSingleLine s = true ↔ '\r' ∉ s.toList ∧ '\n' ∉ s.toList := by
  rw [isSingleLine, List.all_eq_true]
  constructor
  · intro all
    exact ⟨fun mem => absurd (all _ mem) (by decide), fun mem => absurd (all _ mem) (by decide)⟩
  · rintro ⟨noReturn, noFeed⟩ c mem
    have other : c ≠ '\r' ∧ c ≠ '\n' :=
      ⟨fun same => noReturn (same ▸ mem), fun same => noFeed (same ▸ mem)⟩
    simp [isLineBreak, other]

end Text

namespace File

theorem readText_ofText (text : String) : (ofText text).readText = .ok text := by
  have valid : String.fromUTF8? text.toUTF8 = some text := dif_pos text.isValidUTF8
  simp only [ofText, readText, valid]

theorem ofText_ne_directory (text : String) : ofText text ≠ .directory := nofun

theorem ofText_inj {first second : String} : ofText first = ofText second ↔ first = second := by
  rw [ofText, ofText, bytes.injEq]
  exact String.toByteArray_inj

theorem writeText_of_ne {file : File} (kind : file ≠ .directory) (text : String) :
    file.writeText text = .ok (ofText text) := by
  cases file with
  | directory => exact absurd rfl kind
  | missing => rfl
  | bytes data => rfl

end File

namespace History

open Text

def Storable (entry : String) : Prop :=
  entry ≠ "" ∧ '\r' ∉ entry.toList ∧ '\n' ∉ entry.toList

instance : DecidablePred Storable := fun entry =>
  inferInstanceAs (Decidable (entry ≠ "" ∧ '\r' ∉ entry.toList ∧ '\n' ∉ entry.toList))

variable {entries : List String} {limit : Nat} {file : File}

theorem storable_iff (entry : String) :
    Storable entry ↔ (!entry.isEmpty) = true ∧ isSingleLine entry = true := by
  rw [Storable, isSingleLine_iff, Bool.not_eq_true', String.isEmpty_eq_false_iff]

theorem lines_renderEntries (entries : List String) (limit : Nat) :
    lines (renderEntries entries limit) = (entries.rtake limit).filter (isSingleLine ·) :=
  lines_join fun _ mem => (List.mem_filter.mp mem).2

/-- Two texts are the same exactly if the single lines among what they were made of are. A line feed
behind each entry keeps entries from running together. -/
theorem renderEntries_eq_iff {others : List String} {limit' : Nat} :
    renderEntries entries limit = renderEntries others limit' ↔
      (entries.rtake limit).filter (isSingleLine ·) =
        (others.rtake limit').filter (isSingleLine ·) := by
  constructor
  · intro same
    rw [← lines_renderEntries, same, lines_renderEntries]
  · intro same
    exact congrArg (fun kept => String.join (kept.map (· ++ "\n"))) same

theorem parseEntries_renderEntries (entries : List String) (limit : Nat) :
    parseEntries (renderEntries entries limit) = (entries.rtake limit).filter (Storable ·) := by
  rw [parseEntries, lines_renderEntries, List.filter_filter]
  apply List.filter_congr
  intro entry _
  rw [Bool.eq_iff_iff, decide_eq_true_iff, storable_iff, Bool.and_eq_true]

theorem rtake_of_length_le (enough : entries.length ≤ limit) : entries.rtake limit = entries := by
  rw [List.rtake, Nat.sub_eq_zero_of_le enough, List.drop_zero]

theorem length_filter_rtake_le (entries : List String) (limit : Nat) (p : String → Bool) :
    ((entries.rtake limit).filter p).length ≤ limit := by
  have some := List.length_filter_le p (entries.rtake limit)
  rw [List.rtake, List.length_drop] at some
  rw [List.rtake]
  omega

/-- What a file gave back is given back again, and the text is another one only when there were
empty lines in it. -/
theorem renderEntries_filter_storable :
    renderEntries ((entries.rtake limit).filter (Storable ·)) limit = renderEntries entries limit ↔
      "" ∉ entries.rtake limit := by
  rw [renderEntries_eq_iff, rtake_of_length_le (length_filter_rtake_le entries limit _),
    List.filter_filter]
  constructor
  · intro same mem
    have inside : "" ∈ (entries.rtake limit).filter (isSingleLine ·) :=
      List.mem_filter.mpr ⟨mem, rfl⟩
    rw [← same] at inside
    simp [Storable] at inside
  · intro nonempty
    apply List.filter_congr
    intro entry mem
    have proper : entry ≠ "" := fun same => nonempty (same ▸ mem)
    rw [Bool.eq_iff_iff, Bool.and_eq_true, decide_eq_true_iff, Storable, isSingleLine_iff]
    tauto

theorem readEntries_ofText (text : String) :
    readEntries (.ofText text) = .ok (parseEntries text) := by
  rw [readEntries, File.readText_ofText]

theorem writeEntries_of_ne (kind : file ≠ .directory) (entries : List String) (limit : Nat) :
    writeEntries entries limit file = .ok (.ofText (renderEntries entries limit)) :=
  File.writeText_of_ne kind _

/-- What is read from a file are the storable ones among the last entries that were written to it.
Written again they are read again, and from then on the text stays the same too. It is the first one
already, unless that has the empty lines of empty entries. -/
theorem reread_of_saved (entries : List String) (limit : Nat) {file : File}
    (kind : file ≠ .directory) :
    let kept := (entries.rtake limit).filter (Storable ·)
    ∃ saved again, writeEntries entries limit file = .ok saved ∧ readEntries saved = .ok kept ∧
      writeEntries kept limit saved = .ok again ∧ readEntries again = .ok kept ∧
        writeEntries kept limit again = .ok again ∧
          (again = saved ↔ "" ∉ entries.rtake limit) := by
  intro kept
  have few : kept.length ≤ limit := length_filter_rtake_le entries limit _
  have steady : (kept.rtake limit).filter (Storable ·) = kept := by
    rw [rtake_of_length_le few, List.filter_filter]
    simp only [Bool.and_self, kept]
  refine ⟨.ofText (renderEntries entries limit), .ofText (renderEntries kept limit),
    writeEntries_of_ne kind _ _, ?_, writeEntries_of_ne (File.ofText_ne_directory _) _ _, ?_,
    writeEntries_of_ne (File.ofText_ne_directory _) _ _, ?_⟩
  · rw [readEntries_ofText, parseEntries_renderEntries]
  · rw [readEntries_ofText, parseEntries_renderEntries, steady]
  · rw [File.ofText_inj, renderEntries_filter_storable]

/-- Of the last five entries one is empty and two have line ends in them. -/
theorem reread_of_saved_mixed :
    let entries := ["dir", "cls", "", "a\rb", "x\r\ny", "cd Wörk"]
    File.missing ≠ .directory ∧
      ∃ saved again, writeEntries entries 5 .missing = .ok saved ∧
        readEntries saved = .ok ["cls", "cd Wörk"] ∧
        writeEntries ["cls", "cd Wörk"] 5 saved = .ok again ∧
        readEntries again = .ok ["cls", "cd Wörk"] ∧
        writeEntries ["cls", "cd Wörk"] 5 again = .ok again := by
  intro entries
  have kept : (entries.rtake 5).filter (Storable ·) = ["cls", "cd Wörk"] := by decide
  have kind : File.missing ≠ .directory := nofun
  obtain ⟨saved, again, wrote, read, rewrote, reread, stays, -⟩ := reread_of_saved entries 5 kind
  rw [kept] at read rewrote reread stays
  exact ⟨kind, saved, again, wrote, read, rewrote, reread, stays⟩

theorem proper_of_mem_parseEntries {text entry : String} (mem : entry ∈ parseEntries text) :
    entry ≠ "" ∧ '\n' ∉ entry.toList := by
  obtain ⟨mem, proper⟩ := List.mem_filter.mp mem
  obtain ⟨line, inside, rfl⟩ := List.mem_map.mp mem
  constructor
  · simpa using proper
  · rw [String.toList_ofList]
    exact lineFeed_not_mem_of_mem_linesFrom List.not_mem_nil inside

theorem forall_parseEntries_iff (text : String) :
    (∀ entry ∈ parseEntries text, '\r' ∉ entry.toList) ↔ ReturnsInEnds text.toList := by
  have all := forall_linesFrom_iff (List.not_mem_nil : '\n' ∉ []) text.toList
  rw [List.reverse_nil, List.nil_append] at all
  rw [← all, parseEntries, lines]
  constructor
  · intro none line mem inside
    have kept : String.ofList line ∈ ((linesFrom [] text.toList).map String.ofList).filter
        (!·.isEmpty) := by
      refine List.mem_filter.mpr ⟨List.mem_map_of_mem mem, ?_⟩
      cases line with
      | nil => exact absurd inside List.not_mem_nil
      | cons c line => simp
    exact none _ kept (by rwa [String.toList_ofList])
  · intro none entry mem
    obtain ⟨line, inside, rfl⟩ := List.mem_map.mp (List.mem_filter.mp mem).1
    rw [String.toList_ofList]
    exact none line inside

/-- The entries that were read from a text, written anew in a number that is not too small, are read
again, but for those with a carriage return. There is none of these exactly if every carriage return
of the text stands right before a line feed. -/
theorem rewritten_of_read {text : String} (valid : file.readText = .ok text)
    (enough : (parseEntries text).length ≤ limit) :
    let entries := parseEntries text
    readEntries file = .ok entries ∧
      ∃ saved, writeEntries entries limit file = .ok saved ∧
        readEntries saved = .ok (entries.filter ('\r' ∉ ·.toList)) ∧
        (readEntries saved = .ok entries ↔ ReturnsInEnds text.toList) := by
  intro entries
  have kind : file ≠ .directory := by
    rintro rfl
    exact absurd valid nofun
  have read : readEntries (.ofText (renderEntries entries limit)) =
      .ok (entries.filter ('\r' ∉ ·.toList)) := by
    rw [readEntries_ofText, parseEntries_renderEntries, rtake_of_length_le enough]
    congr 1
    apply List.filter_congr
    intro entry mem
    have proper := proper_of_mem_parseEntries mem
    simp [Storable, proper]
  refine ⟨by rw [readEntries, valid], .ofText (renderEntries entries limit),
    writeEntries_of_ne kind _ _, read, ?_⟩
  rw [read, Except.ok.injEq, List.filter_eq_self, ← forall_parseEntries_iff]
  simp only [decide_eq_true_iff, entries]

/-- One carriage return stands inside a line, one before that of a line end, and one where the text
ends. -/
theorem rewritten_of_read_foreign :
    let text := "dir\r\n\r\nc\rd\ncls\r\r\n\nWörk\r"
    (File.ofText text).readText = .ok text ∧ (parseEntries text).length ≤ 4 ∧
      readEntries (.ofText text) = .ok ["dir", "c\rd", "cls\r", "Wörk\r"] ∧
      ∃ saved, writeEntries ["dir", "c\rd", "cls\r", "Wörk\r"] 4 (.ofText text) = .ok saved ∧
        readEntries saved = .ok ["dir"] ∧ ¬ReturnsInEnds text.toList := by
  intro text
  have entries : parseEntries text = ["dir", "c\rd", "cls\r", "Wörk\r"] := by decide
  have valid := File.readText_ofText text
  have enough : (parseEntries text).length ≤ 4 := by rw [entries]; decide
  obtain ⟨read, saved, wrote, reread, same⟩ := rewritten_of_read valid enough
  rw [entries] at read wrote reread same
  have kept : ["dir", "c\rd", "cls\r", "Wörk\r"].filter ('\r' ∉ ·.toList) = ["dir"] := by decide
  rw [kept] at reread
  refine ⟨valid, enough, read, saved, wrote, reread, ?_⟩
  rw [← same, reread, Except.ok.injEq]
  decide

/-- A carriage return inside a line is read as part of an entry, and such an entry is not
written. -/
theorem not_always_rewritten :
    ¬ ∀ (text : String) (limit : Nat), (parseEntries text).length ≤ limit →
      ∃ saved, writeEntries (parseEntries text) limit (.ofText text) = .ok saved ∧
        readEntries saved = .ok (parseEntries text) := by
  intro always
  have entries : parseEntries "a\rb\n" = ["a\rb"] := by decide
  obtain ⟨saved, wrote, read⟩ := always "a\rb\n" 1 (by rw [entries]; decide)
  rw [writeEntries_of_ne (File.ofText_ne_directory _), Except.ok.injEq] at wrote
  rw [← wrote, readEntries_ofText, parseEntries_renderEntries, entries, Except.ok.injEq] at read
  exact absurd read (by decide)

end History

end LineEdit
