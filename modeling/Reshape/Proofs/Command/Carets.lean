import Reshape.Command.Run
import Reshape.Proofs.Text.Lines

/-!
# Carets of locations

A location on the command line names a line and a column, and its caret is looked for with words of
32 bits. Start of the line and column are added before anything is held against the length of the
text.

* `Location.Caret` is the caret that a location means, `Location.Overflows` says that the sum on the
  way to it is no word.
* `offsetOf?_eq_some_iff` says what is found: the caret, or an offset that is less by the number of
  words.
* `offsetOf?_location` is the result. A location that does not overflow gives its caret, and is
  reported as outside of the file if there is none. One that overflows gives a caret on an earlier
  line.
-/

namespace Reshape.Command

open LineIndex

variable {path text : String} {l : Location} {start o : Nat}

/-- The caret that a location means: the offset of its column in a line of the text, which reaches
there. -/
def Location.Caret (l : Location) (text : String) (o : Nat) : Prop :=
  o ≤ text.utf8ByteSize ∧
    ∃ start, LineStart text (l.line.toNat - 1) start ∧ o + 1 = start + l.column.toNat

/-- The column of a location, counted from the start of the text, is no word. -/
def Location.Overflows (l : Location) (text : String) : Prop :=
  ∃ start, LineStart text (l.line.toNat - 1) start ∧ UInt32.size ≤ start + l.column.toNat

/-- The word for a column of a line of a text is right, or less by the number of words. -/
theorem toNat_column (hsize : text.utf8ByteSize < UInt32.size) (hcolumn : l.column ≠ 0)
    (hstart : start ≤ text.utf8ByteSize) : (UInt32.ofNat start + l.column - 1).toNat = o ↔
      o < UInt32.size ∧
        (o + 1 = start + l.column.toNat ∨ o + 1 + UInt32.size = start + l.column.toNat) := by
  have hpos : l.column.toNat ≠ 0 := fun h => hcolumn (UInt32.toNat_inj.1 h)
  have hlt := l.column.toNat_lt
  rw [toNat_ofNat_add_sub_one start hcolumn]
  rw [UInt32.size] at *
  omega

theorem offsetOf?_eq_some_iff (hsize : text.utf8ByteSize < UInt32.size) (hline : l.line ≠ 0)
    (hcolumn : l.column ≠ 0) : offsetOf? (.ofText path text) l = some o ↔ o ≤ text.utf8ByteSize ∧
      ∃ start, LineStart text (l.line.toNat - 1) start ∧
        (o + 1 = start + l.column.toNat ∨ o + 1 + UInt32.size = start + l.column.toNat) := by
  rw [offsetOf?, Option.bind_eq_some_iff]
  constructor
  · rintro ⟨w, hw, ho⟩
    obtain ⟨hle, ho⟩ := Option.ite_none_right_eq_some.1 ho
    obtain rfl := Option.some.inj ho
    obtain ⟨-, -, start, hstart, rfl⟩ := LineIndex.offset?_eq_some_iff.1 hw
    have hstart' := getElem?_starts.1 hstart
    exact ⟨hle, start, hstart', ((toNat_column hsize hcolumn hstart'.le).1 rfl).2⟩
  · rintro ⟨hle, start, hstart, hsum⟩
    have hword := (toNat_column hsize hcolumn hstart.le).2 ⟨Nat.lt_of_le_of_lt hle hsize, hsum⟩
    refine ⟨UInt32.ofNat start + l.column - 1,
      LineIndex.offset?_eq_some_iff.2 ⟨hline, hcolumn, start, getElem?_starts.2 hstart, rfl⟩, ?_⟩
    rw [hword]
    exact if_pos hle

/-- A location that does not overflow gives its caret. -/
theorem offsetOf?_eq_some_iff_caret (hsize : text.utf8ByteSize < UInt32.size) (hline : l.line ≠ 0)
    (hcolumn : l.column ≠ 0) (hfits : ¬ l.Overflows text) :
    offsetOf? (.ofText path text) l = some o ↔ l.Caret text o := by
  rw [offsetOf?_eq_some_iff hsize hline hcolumn, Location.Caret]
  refine and_congr_right fun hle => exists_congr fun start => and_congr_right fun hstart => ?_
  exact or_iff_left fun h => hfits ⟨start, hstart, by omega⟩

/-- A location that overflows is taken for a caret on an earlier line. -/
theorem offsetOf?_of_overflow (hsize : text.utf8ByteSize < UInt32.size) (hline : l.line ≠ 0)
    (hcolumn : l.column ≠ 0) (hstart : LineStart text (l.line.toNat - 1) start)
    (hover : UInt32.size < start + l.column.toNat) :
    (∀ o, ¬ l.Caret text o) ∧ ∃ o, offsetOf? (.ofText path text) l = some o ∧ o + 1 < start := by
  have hle := hstart.le
  have hlt := l.column.toNat_lt_size
  constructor
  · rintro o ⟨ho, start', hstart', hsum⟩
    obtain rfl := start_unique hstart hstart'
    omega
  · have hsum :
        start + l.column.toNat - 1 - UInt32.size + 1 + UInt32.size = start + l.column.toNat := by
      omega
    refine ⟨start + l.column.toNat - 1 - UInt32.size, ?_, by omega⟩
    exact (offsetOf?_eq_some_iff hsize hline hcolumn).2 ⟨by omega, start, hstart, .inr hsum⟩

/-- A location without a caret in a file of a workspace is reported. -/
theorem conversionIn_eq_outside {w : Workspace} {f : FileId} {source : SourceFile}
    (hfile : w.file? f = some source) (hnone : offsetOf? source l = none) (file : String)
    (config : Config) :
    conversionIn w f file l config = .error ("", l.text file ++ " is outside the file") := by
  rw [conversionIn, hfile, Option.bind_some, hnone]

/-- A location that does not overflow is computed without leaving the words and gives its caret; if
it has none it is reported as outside of the file. One that overflows is not on the first line. It
has no caret, but is taken for one on an earlier line, unless the sum is just the number of words.
-/
theorem offsetOf?_location (path : String) (hsize : text.utf8ByteSize < UInt32.size)
    (hline : l.line ≠ 0) (hcolumn : l.column ≠ 0) :
    (¬ l.Overflows text →
      (∀ start, LineStart text (l.line.toNat - 1) start →
        (UInt32.ofNat start + l.column).toNat = start + l.column.toNat ∧
          ∃ w, (ofText text).offset? l.line l.column = some w ∧
            w.toNat + 1 = start + l.column.toNat) ∧
      (∀ o, offsetOf? (.ofText path text) l = some o ↔ l.Caret text o) ∧
      ∀ (w : Workspace) f file config, w.file? f = some (.ofText path text) →
        (∀ o, ¬ l.Caret text o) →
        conversionIn w f file l config = .error ("", l.text file ++ " is outside the file")) ∧
    ∀ start, LineStart text (l.line.toNat - 1) start → UInt32.size ≤ start + l.column.toNat →
      0 < start ∧ (UInt32.ofNat start + l.column).toNat + UInt32.size = start + l.column.toNat ∧
        (start + l.column.toNat ≠ UInt32.size →
          (∀ o, ¬ l.Caret text o) ∧
            ∃ o, offsetOf? (.ofText path text) l = some o ∧ o + 1 < start) := by
  have hsum (start : Nat) (hle : start ≤ text.utf8ByteSize) :
      (UInt32.ofNat start + l.column).toNat = (start + l.column.toNat) % UInt32.size := by
    rw [UInt32.toNat_add, UInt32.toNat_ofNat_of_lt' (Nat.lt_of_le_of_lt hle hsize)]
  have hpos : l.column.toNat ≠ 0 := fun h => hcolumn (UInt32.toNat_inj.1 h)
  have hlt := l.column.toNat_lt_size
  refine ⟨fun hfits => ?_, fun start hstart hover => ?_⟩
  · have hcaret (o : Nat) : offsetOf? (.ofText path text) l = some o ↔ l.Caret text o :=
      offsetOf?_eq_some_iff_caret hsize hline hcolumn hfits
    refine ⟨fun start hstart => ?_, hcaret, fun w f file config hfile hnone => ?_⟩
    · have hword : start + l.column.toNat < UInt32.size :=
        Nat.lt_of_not_le fun h => hfits ⟨start, hstart, h⟩
      refine ⟨by rw [hsum start hstart.le, Nat.mod_eq_of_lt hword], _,
        LineIndex.offset?_eq_some_iff.2 ⟨hline, hcolumn, start, getElem?_starts.2 hstart, rfl⟩, ?_⟩
      rw [toNat_ofNat_add_sub_one start hcolumn, Nat.mod_eq_of_lt (by omega)]
      omega
    · exact conversionIn_eq_outside hfile
        (Option.eq_none_iff_forall_ne_some.2 fun o ho => hnone o ((hcaret o).1 ho)) file config
  · have hle := hstart.le
    refine ⟨by omega, ?_, fun hne => ?_⟩
    · rw [hsum start hle, Nat.mod_eq_sub_mod hover, Nat.mod_eq_of_lt (by omega)]
      omega
    · exact offsetOf?_of_overflow hsize hline hcolumn hstart (by omega)

set_option maxRecDepth 100000 in
/-- The second line of a text is empty. A column far behind its end has no caret and is taken for
the name of the struct in the first line. -/
theorem offsetOf?_location_wraps :
    (∀ o, ¬ (⟨"a.rs", 2, 4294967289⟩ : Location).Caret "struct S{a:u8}\n" o) ∧
      ∃ o, offsetOf? (.ofText "a.rs" "struct S{a:u8}\n") ⟨"a.rs", 2, 4294967289⟩ = some o ∧
        o + 1 < 15 := by
  have hstart : LineStart "struct S{a:u8}\n" 1 15 := ⟨by decide, .inr ⟨14, rfl, by decide⟩⟩
  have hsize : "struct S{a:u8}\n".utf8ByteSize < UInt32.size := by decide
  obtain ⟨-, hover⟩ :=
    offsetOf?_location (l := ⟨"a.rs", 2, 4294967289⟩) "a.rs" hsize (by decide) (by decide)
  exact (hover 15 hstart (by decide)).2.2 (by decide)

set_option maxRecDepth 100000 in
/-- A column far behind the end of the text leaves the words and comes to an offset in the first
line, where the struct is converted. -/
theorem offsetOf?_far_past_end :
    LineStart "struct S{a:u8}\n" 1 15 ∧ "struct S{a:u8}\n".utf8ByteSize < 15 + 4294967289 - 1 ∧
      (UInt32.ofNat 15 + 4294967289).toNat ≠ 15 + (4294967289 : UInt32).toNat ∧
      (LineIndex.ofText "struct S{a:u8}\n").offset? 2 4294967289 = some 7 ∧
      (conversionIn (.ofFiles [("a.rs", "struct S{a:u8}\n")]) 0 "a.rs" ⟨"a.rs", 2, 4294967289⟩
        {}).toOption.map (·.texts) = some [("a.rs", "struct S(u8);\n")] := by
  refine ⟨⟨by decide, .inr ⟨14, rfl, by decide⟩⟩, by decide, by decide, by decide, ?_⟩
  decide +kernel

end Reshape.Command
