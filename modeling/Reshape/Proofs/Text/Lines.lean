import Mathlib.Data.List.Basic
import Mathlib.Tactic.SplitIfs
import Reshape.Proofs.Text.Boundary
import Reshape.Text.LineIndex
import Reshape.Text.Utf8

/-!
# Lines of a text, byte by byte

A line index is built from the characters of a text, while offsets count its bytes. A byte has the
value of a line feed only where it is one, so that all that a line index says can be said of the
bytes.

* `lineFeedsBefore` and `bytesSinceLineFeed` count bytes in front of an offset; `LineStart` says
  where a line starts. `getElem?_starts` finds exactly these offsets in a line index.
* `LineIndex.position_eq_iff` is the step from lines that start to the position of an offset:
  `LineIndex.position` searches for the last line that does not start behind the offset.
* `LineIndex.offset?_position` is the result for both directions, with what they do to each other.
-/

namespace Reshape

/-! ## Line feeds among the bytes -/

theorem length_utf8Bytes (cs : List Char) : (utf8Bytes cs).length = byteLength cs := by
  induction cs with
  | nil => rfl
  | cons c cs ih =>
    rw [byteLength_cons, ← ih, utf8Bytes, List.flatMap_cons, List.length_append,
      String.length_utf8EncodeChar]
    rfl

/-- A line feed is the only character with the byte of a line feed in its encoding. -/
theorem lineFeed_mem_utf8EncodeChar {c : Char} : 10 ∈ String.utf8EncodeChar c ↔ c = '\n' := by
  have hten (n : Nat) : (10 : UInt8) = UInt8.ofNat n ↔ n % 256 = 10 := by
    rw [← UInt8.toNat_inj, UInt8.toNat_ofNat', eq_comm]
    rfl
  have hc : c = '\n' ↔ c.val.toNat = 10 := by
    rw [Char.ext_iff, UInt32.ext_iff]
    rfl
  rw [hc, String.utf8EncodeChar]
  generalize c.val.toNat = v
  -- Of the bytes that encode a character only one that stands alone is less than 128.
  split_ifs <;> simp only [List.mem_cons, List.not_mem_nil, or_false, hten] <;> omega

/-- The offsets behind the line feeds among bytes, the first of which stands at offset `start`. -/
def behindLineFeeds (start : Nat) : List UInt8 → List Nat
  | [] => []
  | b :: bs =>
    if b = 10 then (start + 1) :: behindLineFeeds (start + 1) bs else behindLineFeeds (start + 1) bs

theorem behindLineFeeds_append (start : Nat) (as bs : List UInt8) :
    behindLineFeeds start (as ++ bs) =
      behindLineFeeds start as ++ behindLineFeeds (start + as.length) bs := by
  induction as generalizing start with
  | nil => rfl
  | cons a as ih =>
    rw [List.cons_append, behindLineFeeds, behindLineFeeds, ih, List.length_cons,
      Nat.add_right_comm, Nat.add_assoc]
    split <;> simp

theorem behindLineFeeds_eq_nil {start : Nat} {bs : List UInt8} (h : 10 ∉ bs) :
    behindLineFeeds start bs = [] := by
  induction bs generalizing start with
  | nil => rfl
  | cons b bs ih =>
    rw [List.mem_cons, not_or] at h
    rw [behindLineFeeds, if_neg (Ne.symm h.1), ih h.2]

/-- The starts of lines can be read off the bytes. -/
theorem lineStartsFrom_eq (start : Nat) (cs : List Char) :
    lineStartsFrom start cs = behindLineFeeds start (utf8Bytes cs) := by
  induction cs generalizing start with
  | nil => rfl
  | cons c cs ih =>
    have hbytes : utf8Bytes (c :: cs) = String.utf8EncodeChar c ++ utf8Bytes cs := rfl
    rw [hbytes, behindLineFeeds_append, String.length_utf8EncodeChar, lineStartsFrom, ih]
    by_cases hc : c = '\n'
    · subst hc
      rfl
    · rw [behindLineFeeds_eq_nil (mt lineFeed_mem_utf8EncodeChar.1 hc), if_neg hc, List.nil_append]

theorem getElem?_behindLineFeeds {start k s : Nat} {bs : List UInt8} :
    (behindLineFeeds start bs)[k]? = some s ↔
      ∃ i, s = start + i + 1 ∧ bs[i]? = some 10 ∧ (bs.take i).count 10 = k := by
  induction bs generalizing start k with
  | nil => simp [behindLineFeeds]
  | cons b bs ih =>
    -- The line feed is the first byte or stands behind it.
    rw [behindLineFeeds, ← Nat.or_exists_add_one]
    simp only [List.getElem?_cons_zero, List.getElem?_cons_succ, List.take_zero,
      List.take_succ_cons, List.count_nil, Nat.add_right_comm start _ 1, ← Nat.add_assoc]
    by_cases hb : b = 10
    · cases k with
      | zero => simp [hb, eq_comm]
      | succ k => simp [hb, ih]
    · simp [hb, ih]

/-! ## Where lines start -/

/-- The number of line feeds before an offset. -/
def lineFeedsBefore (text : String) (offset : Nat) : Nat :=
  ((utf8Bytes text.toList).take offset).count 10

/-- The number of bytes between the last line feed before an offset, or the start of the text, and
the offset. -/
def bytesSinceLineFeed (text : String) (offset : Nat) : Nat :=
  (((utf8Bytes text.toList).take offset).reverse.takeWhile (· ≠ 10)).length

/-- A line starts at an offset behind the given number of line feeds: at the start of the text or
right behind a line feed. -/
def LineStart (text : String) (lineFeeds offset : Nat) : Prop :=
  lineFeedsBefore text offset = lineFeeds ∧
    (offset = 0 ∨ ∃ i, offset = i + 1 ∧ (utf8Bytes text.toList)[i]? = some 10)

/-- What has more line feeds before it lies behind. -/
theorem lt_of_lineFeedsBefore_lt {text : String} {m n : Nat}
    (h : lineFeedsBefore text m < lineFeedsBefore text n) : m < n :=
  Nat.lt_of_not_le fun hle => Nat.not_le_of_lt h ((List.take_prefix_take_left hle).count_le 10)

theorem lineFeedsBefore_add_one {text : String} {i : Nat}
    (h : (utf8Bytes text.toList)[i]? = some 10) :
    lineFeedsBefore text (i + 1) = lineFeedsBefore text i + 1 := by
  simp [lineFeedsBefore, List.take_add_one, h]

theorem LineStart.le {text : String} {k start : Nat} (h : LineStart text k start) :
    start ≤ text.utf8ByteSize := by
  obtain ⟨-, rfl | ⟨i, rfl, hi⟩⟩ := h
  · exact Nat.zero_le _
  · obtain ⟨hlt, -⟩ := List.getElem?_eq_some_iff.1 hi
    rw [utf8ByteSize_eq_byteLength, ← length_utf8Bytes]
    exact hlt

/-- The line of an offset starts where the bytes since the last line feed do. -/
theorem lineStart_sub_bytesSinceLineFeed {text : String} {offset : Nat}
    (h : offset ≤ text.utf8ByteSize) : bytesSinceLineFeed text offset ≤ offset ∧
      LineStart text (lineFeedsBefore text offset) (offset - bytesSinceLineFeed text offset) := by
  rw [utf8ByteSize_eq_byteLength, ← length_utf8Bytes] at h
  rw [bytesSinceLineFeed, LineStart, lineFeedsBefore, lineFeedsBefore]
  generalize utf8Bytes text.toList = bytes at *
  obtain ⟨before, behind, rfl, rfl⟩ :
      ∃ before behind, bytes = before ++ behind ∧ before.length = offset :=
    ⟨_, _, (List.take_append_drop offset bytes).symm, List.length_take_of_le h⟩
  rw [List.take_left]
  obtain ⟨hsplit, hrun, hlast⟩ := trimmed_append (· ≠ 10) before
  generalize before.reverse.takeWhile (· ≠ 10) = run at *
  generalize (before.reverse.dropWhile (· ≠ 10)).reverse = upto at *
  subst hsplit
  have hnone : 10 ∉ run := fun h => by simpa using hrun 10 (List.mem_reverse.2 h)
  have hsub : (upto ++ run.reverse).length - run.length = upto.length := by simp
  rw [hsub, List.append_assoc, List.take_left, List.count_append, List.count_reverse,
    List.count_eq_zero.2 hnone]
  refine ⟨by simp, rfl, ?_⟩
  obtain rfl | ⟨init, x, rfl⟩ := List.eq_nil_or_concat' upto
  · exact .inl rfl
  · obtain rfl : x = 10 := by simpa using hlast x (by simp)
    exact .inr ⟨init.length, by simp, by simp⟩

namespace LineIndex

variable {text : String} {k start offset : Nat} {lines : LineIndex} {line column o : UInt32}

/-- A line index lists where lines start. -/
theorem getElem?_starts : (ofText text).starts[k]? = some start ↔ LineStart text k start := by
  rw [starts, ofText, lineStartsFrom_eq]
  cases k with
  | zero =>
    rw [List.getElem?_cons_zero, Option.some_inj]
    constructor
    · rintro rfl
      exact ⟨rfl, .inl rfl⟩
    · rintro ⟨hcount, hstart | ⟨i, rfl, hi⟩⟩
      · exact hstart.symm
      · rw [lineFeedsBefore_add_one hi] at hcount
        omega
  | succ k =>
    rw [List.getElem?_cons_succ, getElem?_behindLineFeeds]
    constructor
    · rintro ⟨i, rfl, hi, hcount⟩
      rw [Nat.zero_add]
      exact ⟨by rw [lineFeedsBefore_add_one hi, lineFeedsBefore, hcount], .inr ⟨i, rfl, hi⟩⟩
    · rintro ⟨hcount, rfl | ⟨i, rfl, hi⟩⟩
      · cases hcount
      · rw [lineFeedsBefore_add_one hi] at hcount
        exact ⟨i, by omega, hi, Nat.succ.inj hcount⟩

theorem start_unique {start' : Nat} (h : LineStart text k start) (h' : LineStart text k start') :
    start = start' :=
  Option.some.inj ((getElem?_starts.2 h).symm.trans (getElem?_starts.2 h'))

/-- Later lines start later. -/
theorem pairwise_starts (text : String) : (ofText text).starts.Pairwise (· < ·) := by
  rw [List.pairwise_iff_getElem]
  intro i j hi hj hij
  obtain ⟨hcounti, -⟩ := getElem?_starts.1 (List.getElem?_eq_getElem hi)
  obtain ⟨hcountj, -⟩ := getElem?_starts.1 (List.getElem?_eq_getElem hj)
  exact lt_of_lineFeedsBefore_lt (by rwa [hcounti, hcountj])

/-! ## Positions -/

/-- The search for the position of an offset ends at a line that starts no later, if and only if the
next one starts behind the offset. -/
theorem position_eq_iff (hsorted : lines.starts.Pairwise (· < ·))
    (hstart : lines.starts[k]? = some start) (hle : start ≤ offset) :
    lines.position offset = (k + 1, offset - start + 1) ↔
      ∀ next, lines.starts[k + 1]? = some next → offset < next := by
  obtain ⟨before, behind, hsplit, rfl⟩ :
      ∃ before behind, lines.starts = before ++ start :: behind ∧ before.length = k := by
    obtain ⟨hk, rfl⟩ := List.getElem?_eq_some_iff.1 hstart
    refine ⟨lines.starts.take k, lines.starts.drop (k + 1), ?_,
      List.length_take_of_le (Nat.le_of_lt hk)⟩
    rw [List.getElem_cons_drop, List.take_append_drop]
  rw [hsplit, List.pairwise_append] at hsorted
  have hreached : lines.starts.takeWhile (· ≤ offset) =
      before ++ start :: behind.takeWhile (· ≤ offset) := by
    rw [hsplit, List.takeWhile_append_of_pos, List.takeWhile_cons_of_pos (by simpa using hle)]
    intro s hs
    have hlt := hsorted.2.2 s hs start List.mem_cons_self
    simp only [decide_eq_true_eq]
    omega
  have hnext : lines.starts[before.length + 1]? = behind.head? := by
    rw [hsplit, List.getElem?_append_right (by omega), List.head?_eq_getElem?]
    simp
  rw [position, hreached, hnext]
  cases behind with
  | nil => simp
  | cons next behind =>
    by_cases h : next ≤ offset
    · rw [List.takeWhile_cons_of_pos (by simpa using h)]
      simp [h]
    · rw [List.takeWhile_cons_of_neg (by simpa using h)]
      simp
      omega

/-- The position of an offset of the text counts the bytes before it. -/
theorem position_eq (h : offset ≤ text.utf8ByteSize) : (ofText text).position offset =
    (lineFeedsBefore text offset + 1, bytesSinceLineFeed text offset + 1) := by
  obtain ⟨hle, hstart⟩ := lineStart_sub_bytesSinceLineFeed h
  have hnext (next : Nat) (h : (ofText text).starts[lineFeedsBefore text offset + 1]? = some next) :
      offset < next := by
    -- The next line has one line feed more before it.
    obtain ⟨hcount, -⟩ := getElem?_starts.1 h
    exact lt_of_lineFeedsBefore_lt (by rw [hcount]; exact Nat.lt_succ_self _)
  rw [(position_eq_iff (pairwise_starts text) (getElem?_starts.2 hstart) (Nat.sub_le ..)).2 hnext,
    Nat.sub_sub_self hle]

/-! ## Offsets of lines and columns -/

theorem offset?_eq_some_iff : lines.offset? line column = some o ↔ line ≠ 0 ∧ column ≠ 0 ∧
    ∃ start, lines.starts[line.toNat - 1]? = some start ∧ UInt32.ofNat start + column - 1 = o := by
  rw [offset?]
  split
  · next h =>
    simp only [reduceCtorEq, false_iff]
    tauto
  · next h =>
    rw [not_or] at h
    simp [h]

theorem offset?_eq_none_iff : lines.offset? line column = none ↔
    line = 0 ∨ column = 0 ∨ lines.count < line.toNat := by
  rw [offset?]
  split
  · next h =>
    simp only [true_iff]
    tauto
  · next h =>
    have hline : line.toNat ≠ 0 := fun h0 => h (.inl (UInt32.toNat_inj.1 h0))
    rw [not_or] at h
    simp only [Option.map_eq_none_iff, List.getElem?_eq_none_iff, h, false_or, count]
    omega

/-- The word that is computed for a column of a line is right up to a multiple of the number of
words. -/
theorem toNat_ofNat_add_sub_one (start : Nat) (h : column ≠ 0) :
    (UInt32.ofNat start + column - 1).toNat = (start + column.toNat - 1) % UInt32.size := by
  have hcolumn : column.toNat ≠ 0 := fun h0 => h (UInt32.toNat_inj.1 h0)
  rw [UInt32.toNat_sub, UInt32.toNat_add, UInt32.toNat_ofNat', UInt32.toNat_one, UInt32.size]
  omega

/-- A line and a column are found where they fit in words. -/
theorem offset?_eq_some (hline : line.toNat = k + 1) (hstart : lines.starts[k]? = some start)
    (hle : start ≤ o.toNat) (hcolumn : start + column.toNat = o.toNat + 1) :
    lines.offset? line column = some o := by
  have hline0 : line ≠ 0 := fun h => by simp [h] at hline
  have hcolumn0 : column ≠ 0 := fun h => by
    rw [h, UInt32.toNat_zero] at hcolumn
    omega
  refine offset?_eq_some_iff.2 ⟨hline0, hcolumn0, start, by rw [hline]; exact hstart, ?_⟩
  rw [← UInt32.toNat_inj, toNat_ofNat_add_sub_one start hcolumn0, hcolumn, Nat.add_sub_cancel]
  exact Nat.mod_eq_of_lt o.toNat_lt

/-- What holds of the next line, if there is one: the line is the last one, or it holds of the next.
-/
theorem forall_next_iff {P : Nat → Prop} (hline : lines.starts[k]? = some start) :
    (∀ next, lines.starts[k + 1]? = some next → P next) ↔
      k + 1 = lines.count ∨ ∃ next, lines.starts[k + 1]? = some next ∧ P next := by
  obtain ⟨hk, -⟩ := List.getElem?_eq_some_iff.1 hline
  cases h : lines.starts[k + 1]? with
  | none =>
    have hcount : k + 1 = lines.count := Nat.le_antisymm hk (List.getElem?_eq_none_iff.1 h)
    simp [hcount]
  | some next =>
    obtain ⟨hlt, -⟩ := List.getElem?_eq_some_iff.1 h
    have hcount : k + 1 ≠ lines.count := Nat.ne_of_lt hlt
    simp [hcount]

/-- An offset that is computed without leaving the words has the position it was computed from,
unless the column leads into a later line. -/
theorem position_of_offset? (hoffset : (ofText text).offset? line column = some o)
    (hstart : LineStart text (line.toNat - 1) start) (hwords : start + column.toNat < UInt32.size) :
    (ofText text).position o.toNat = (line.toNat, column.toNat) ↔
      line.toNat = (ofText text).count ∨
        ∃ next, LineStart text line.toNat next ∧ o.toNat < next := by
  have hindex := getElem?_starts.2 hstart
  obtain ⟨hline, hcolumn, start', hstart', rfl⟩ := offset?_eq_some_iff.1 hoffset
  obtain rfl : start = start' := Option.some.inj (hindex.symm.trans hstart')
  have hline0 : line.toNat ≠ 0 := fun h => hline (UInt32.toNat_inj.1 h)
  have hcolumn0 : column.toNat ≠ 0 := fun h => hcolumn (UInt32.toNat_inj.1 h)
  have hoffset' : (UInt32.ofNat start + column - 1).toNat = start + (column.toNat - 1) := by
    rw [toNat_ofNat_add_sub_one start hcolumn, Nat.mod_eq_of_lt (by omega)]
    omega
  have hiff := (position_eq_iff (pairwise_starts text) hindex
    (Nat.le_add_right start (column.toNat - 1))).trans
    (forall_next_iff hindex)
  rw [Nat.add_sub_cancel_left, Nat.sub_one_add_one hcolumn0, Nat.sub_one_add_one hline0] at hiff
  simp only [hoffset', hiff, getElem?_starts]

/-- A position and an offset say the same. The position of an offset counts the line feeds and bytes
before it, and leads back to the offset; its numbers are words unless the offset is the last word.
An offset that is computed without leaving the words has the position it was computed from if and
only if the next line, if there is one, starts behind it. No offset is computed only without a line
or a column. -/
theorem offset?_position (text : String) :
    (∀ offset ≤ text.utf8ByteSize, (ofText text).position offset =
      (lineFeedsBefore text offset + 1, bytesSinceLineFeed text offset + 1)) ∧
    (∀ o : UInt32, o.toNat ≤ text.utf8ByteSize →
      (∀ line column : UInt32, (ofText text).position o.toNat = (line.toNat, column.toNat) →
        (ofText text).offset? line column = some o) ∧
      (o.toNat + 1 < UInt32.size →
        ∃ line column : UInt32, (ofText text).position o.toNat = (line.toNat, column.toNat))) ∧
    (∀ (line column o : UInt32) (start : Nat), (ofText text).offset? line column = some o →
      LineStart text (line.toNat - 1) start → start + column.toNat < UInt32.size →
      ((ofText text).position o.toNat = (line.toNat, column.toNat) ↔
        line.toNat = (ofText text).count ∨
          ∃ next, LineStart text line.toNat next ∧ o.toNat < next)) ∧
    ∀ line column : UInt32, (ofText text).offset? line column = none ↔
      line = 0 ∨ column = 0 ∨ (ofText text).count < line.toNat := by
  refine ⟨fun offset => position_eq, fun o ho => ?_, fun line column o start => position_of_offset?,
    fun line column => offset?_eq_none_iff⟩
  obtain ⟨hle, hstart⟩ := lineStart_sub_bytesSinceLineFeed ho
  rw [position_eq ho]
  refine ⟨fun line column hposition => ?_, fun hlast => ?_⟩
  · rw [Prod.mk.injEq] at hposition
    exact offset?_eq_some hposition.1.symm (getElem?_starts.2 hstart) (Nat.sub_le ..) (by omega)
  · have hfeeds : lineFeedsBefore text o.toNat ≤ o.toNat :=
      Nat.le_trans List.count_le_length (List.length_take_le ..)
    refine ⟨.ofNat (lineFeedsBefore text o.toNat + 1),
      .ofNat (bytesSinceLineFeed text o.toNat + 1), ?_⟩
    rw [UInt32.toNat_ofNat_of_lt' (by omega), UInt32.toNat_ofNat_of_lt' (by omega)]

/-- The second line starts at offset 3, behind a character of two bytes and a line feed. The fifth
column of the first line is on it too, so that this offset has another position. -/
theorem offset?_position_past_line :
    (ofText "é\nb").position 4 = (2, 2) ∧ (ofText "é\nb").offset? 2 2 = some 4 ∧
      (ofText "é\nb").offset? 1 5 = some 4 ∧ (ofText "é\nb").position 4 ≠ (1, 5) ∧
      (ofText "é\nb").offset? 3 1 = none := by
  obtain ⟨hposition, hback, hforth, hnone⟩ := offset?_position "é\nb"
  have h4 : (ofText "é\nb").position 4 = (2, 2) := (hposition 4 (by decide)).trans (by decide)
  have h5 : (ofText "é\nb").offset? 1 5 = some 4 := by decide
  refine ⟨h4, (hback 4 (by decide)).1 2 2 h4, h5, fun h => ?_, (hnone 3 1).2 (by decide)⟩
  obtain hlast | ⟨next, hnext, hlt⟩ := (hforth 1 5 4 0 h5 ⟨by decide, .inl rfl⟩ (by decide)).1 h
  · exact absurd hlast (by decide)
  · -- The only line behind the first one starts at 3.
    have h3 : (ofText "é\nb").starts[1]? = some 3 := by decide
    obtain rfl := Option.some.inj (h3.symm.trans (getElem?_starts.2 hnext))
    exact absurd hlt (by decide)

end LineIndex

end Reshape
