/-
BrokerExam/Proofs/Report/HexDump.lean

What a dump shows of the bytes, and at which of them it points.  A row shows each
byte in columns that depend on its place alone, three for its digits and one behind
the bar for what stands for it (`HexDump.Shows`), so that a line below can point at
it: `HexDump.sign` says what such a line has in every column.

Main results: `shows_row`, `getElem?_pointer` and `dumps_pointed`.
-/
import Mathlib.Tactic.SplitIfs
import BrokerExam.Proofs.Text.Hex
import BrokerExam.Proofs.Text.Split
import BrokerExam.Report.HexDump

namespace BrokerExam.HexDump

theorem hexWidth_eq : hexWidth = 48 := rfl

theorem asciiColumn_eq : asciiColumn = 50 := rfl

/-! ### Rows -/

/-- The bytes of which the digits stand one after the other, each with a blank behind it. -/
def readColumns : List Char → Bytes
  | high :: low :: ' ' :: columns =>
    match Hex.byte? high low with
    | some b => b :: readColumns columns
    | none => []
  | _ => []

/-- The character stands for the byte: the characters of ASCII that can be printed for themselves, a
dot for every other byte. -/
def StandsFor (c : Char) (b : UInt8) : Prop :=
  (32 ≤ b.toNat ∧ b.toNat ≤ 126 → c.toNat = b.toNat) ∧ (b.toNat < 32 ∨ 126 < b.toNat → c = '.')

/-- The line shows the bytes: their digits can be read in the first columns, behind the bar there is
what stands for them, and each byte has its place. -/
structure Shows (bs : Bytes) (row : List Char) : Prop where
  digits : readColumns (row.take 48) = bs
  bar : bs ≠ [] → (row.drop 48).take 2 = ['|', ' ']
  characters : List.Forall₂ StandsFor (row.drop 50) bs
  inPlace : ∀ k b, bs[k]? = some b → ∃ high low c, (row.drop (3 * k)).take 2 = [high, low] ∧
    Hex.byte? high low = some b ∧ row[50 + k]? = some c ∧ StandsFor c b

theorem standsFor_iff {c : Char} {b : UInt8} : StandsFor c b ↔ c = character b := by
  have bounds : 32 ≤ b ∧ b ≤ 126 ↔ 32 ≤ b.toNat ∧ b.toNat ≤ 126 := by
    rw [UInt8.le_iff_toNat_le, UInt8.le_iff_toNat_le]
    rfl
  rw [StandsFor, character]
  split
  · next printable =>
    have range := bounds.1 printable
    have same : (Char.ofNat b.toNat).toNat = b.toNat := by
      have each : ∀ n, n < 127 → (Char.ofNat n).toNat = n := by decide
      exact each _ (by omega)
    constructor
    · rintro ⟨itself, -⟩
      rw [← itself range, Char.ofNat_toNat]
    · rintro rfl
      exact ⟨fun _ => same, fun outside => by omega⟩
  · next other =>
    have outside : b.toNat < 32 ∨ 126 < b.toNat := by
      have := mt bounds.2 other
      omega
    exact ⟨fun stands => stands.2 outside, fun dot => ⟨fun inside => by omega, fun _ => dot⟩⟩

/-- What stands for bytes is one character for each. -/
theorem forall₂_standsFor_iff {cs : List Char} {bs : Bytes} :
    List.Forall₂ StandsFor cs bs ↔ cs = bs.map character :=
  Text.forall₂_iff_eq_map fun _ _ => standsFor_iff

theorem shows_nil : Shows [] [] where
  digits := rfl
  bar some := absurd rfl some
  characters := .nil
  inPlace k b some := by simp at some

/-- The columns with the digits. -/
def hexColumns (bs : Bytes) : List Char := bs.flatMap fun b => Hex.digits b ++ [' ']

theorem hexColumns_cons (b : UInt8) (bs : Bytes) :
    hexColumns (b :: bs) = Hex.digits b ++ ' ' :: hexColumns bs := by
  rw [hexColumns, List.flatMap_cons, List.append_assoc]
  rfl

theorem length_hexColumns (bs : Bytes) : (hexColumns bs).length = 3 * bs.length := by
  induction bs with
  | nil => rfl
  | cons b bs ih =>
    rw [hexColumns_cons, List.length_append, List.length_cons, ih, List.length_cons,
      show (Hex.digits b).length = 2 from rfl]
    omega

theorem drop_hexColumns (bs : Bytes) (k : Nat) :
    (hexColumns bs).drop (3 * k) = hexColumns (bs.drop k) := by
  induction k generalizing bs with
  | zero => rfl
  | succ k ih =>
    cases bs with
    | nil => simp [hexColumns]
    | cons b bs =>
      rw [List.drop_succ_cons, ← ih, hexColumns_cons]
      rfl

/-- The digits are read, up to the blanks behind them. -/
theorem readColumns_hexColumns (bs : Bytes) (blanks : Nat) :
    readColumns (hexColumns bs ++ List.replicate blanks ' ') = bs := by
  induction bs with
  | nil =>
    have none : Hex.byte? ' ' ' ' = Option.none := by decide
    rcases blanks with _ | _ | _ | blanks
    · rfl
    · rfl
    · rfl
    · show readColumns (' ' :: ' ' :: ' ' :: List.replicate blanks ' ') = []
      rw [readColumns, none]
  | cons b bs ih =>
    have first := Hex.byte?_eq_some_iff.2 (rfl : Hex.digits b = [_, _])
    rw [hexColumns_cons]
    show readColumns (_ :: _ :: ' ' :: (hexColumns bs ++ List.replicate blanks ' ')) = b :: bs
    rw [readColumns, first]
    exact congrArg (b :: ·) ih

section Row

variable {bs : Bytes} (few : bs.length ≤ bytesPerRow)

theorem row_eq (bs : Bytes) : row bs = hexColumns bs ++
    List.replicate (hexWidth - (hexColumns bs).length) ' ' ++ ['|', ' '] ++ bs.map character := rfl

include few

theorem length_filled : (hexColumns bs ++
    List.replicate (hexWidth - (hexColumns bs).length) ' ').length = hexWidth := by
  have width : (hexColumns bs).length ≤ hexWidth := by
    rw [length_hexColumns, hexWidth]
    omega
  rw [List.length_append, List.length_replicate]
  omega

/-- **A row shows its bytes.** -/
theorem shows_row : Shows bs (row bs) := by
  have filled := length_filled few
  have front : (row bs).take hexWidth =
      hexColumns bs ++ List.replicate (hexWidth - (hexColumns bs).length) ' ' := by
    rw [row_eq, List.append_assoc]
    exact List.take_left' filled
  have back : (row bs).drop hexWidth = ['|', ' '] ++ bs.map character := by
    rw [row_eq, List.append_assoc]
    exact List.drop_left' filled
  have characters : (row bs).drop 50 = bs.map character := by
    rw [← asciiColumn_eq, asciiColumn, ← List.drop_drop, back]
    rfl
  refine ⟨?_, fun _ => ?_, forall₂_standsFor_iff.2 characters, fun k b there =>
    ⟨_, _, character b, ?_, Hex.byte?_eq_some_iff.2 rfl, ?_, standsFor_iff.2 rfl⟩⟩
  · rw [← hexWidth_eq, front]
    exact readColumns_hexColumns bs _
  · rw [← hexWidth_eq, back]
    rfl
  · obtain ⟨inside, rfl⟩ := List.getElem?_eq_some_iff.1 there
    have before : 3 * k ≤ (hexColumns bs).length := by
      rw [length_hexColumns]
      omega
    rw [row_eq, List.append_assoc, List.append_assoc, List.drop_append_of_le_length before,
      drop_hexColumns, List.drop_eq_getElem_cons inside, hexColumns_cons]
    rfl
  · have column := congrArg (fun cs => cs[k]?) characters
    rw [List.getElem?_drop, List.getElem?_map, there] at column
    exact column

end Row

/-! ### All rows -/

theorem rowsOf_cons (fuel : Nat) {bs : Bytes} (some : bs ≠ []) :
    rowsOf (fuel + 1) bs = row (bs.take bytesPerRow) :: rowsOf fuel (bs.drop bytesPerRow) := by
  cases bs with
  | nil => exact absurd rfl some
  | cons b bs => rfl

theorem rowsOf_nil (fuel : Nat) : rowsOf fuel [] = [] := by
  cases fuel <;> rfl

/-- There are as many rows as there are sixteens of bytes, begun ones included. -/
theorem rowsOf_eq {fuel : Nat} {bs : Bytes} (enough : bs.length ≤ fuel) :
    rowsOf fuel bs = (List.range ((bs.length + 15) / 16)).map fun i =>
      row ((bs.drop (16 * i)).take bytesPerRow) := by
  induction fuel generalizing bs with
  | zero =>
    obtain rfl := List.eq_nil_of_length_eq_zero (Nat.le_zero.1 enough)
    rfl
  | succ fuel ih =>
    by_cases none : bs = []
    · subst none
      rfl
    · have positive := List.length_pos_iff.2 none
      have fewer : (bs.drop bytesPerRow).length ≤ fuel := by
        rw [List.length_drop, bytesPerRow]
        omega
      have count : (bs.length + 15) / 16 = ((bs.drop bytesPerRow).length + 15) / 16 + 1 := by
        rw [List.length_drop, bytesPerRow]
        omega
      rw [rowsOf_cons fuel none, ih fewer, count, List.range_succ_eq_map, List.map_cons,
        List.map_map]
      refine congrArg _ (List.map_congr_left fun i _ => ?_)
      rw [List.drop_drop, bytesPerRow]
      show _ = row ((bs.drop (16 * (i + 1))).take 16)
      rw [Nat.mul_succ, Nat.add_comm]

/-- The rows read back to the bytes. -/
theorem flatMap_rowsOf {fuel : Nat} {bs : Bytes} (enough : bs.length ≤ fuel) :
    ((rowsOf fuel bs).flatMap fun line => readColumns (line.take 48)) = bs := by
  induction fuel generalizing bs with
  | zero =>
    obtain rfl := List.eq_nil_of_length_eq_zero (Nat.le_zero.1 enough)
    rfl
  | succ fuel ih =>
    by_cases none : bs = []
    · subst none
      rfl
    · have positive := List.length_pos_iff.2 none
      have fewer : (bs.drop bytesPerRow).length ≤ fuel := by
        rw [List.length_drop, bytesPerRow]
        omega
      rw [rowsOf_cons fuel none, List.flatMap_cons, ih fewer,
        (shows_row (List.length_take_le _ _)).digits, List.take_append_drop]

/-- No sign in a row ends the line. -/
theorem newline_not_mem_row (bs : Bytes) : '\n' ∉ row bs := by
  have shown (b : UInt8) : character b ≠ '\n' := by
    have each : ∀ n : Fin 256, character (UInt8.ofNat n) ≠ '\n' := by decide +kernel
    have here := each ⟨b.toNat, b.toNat_lt⟩
    rwa [UInt8.ofNat_toNat] at here
  have digits : '\n' ∉ hexColumns bs := by
    intro h
    obtain ⟨b, -, h⟩ := List.mem_flatMap.1 h
    rcases List.mem_append.1 h with h | h
    · exact Hex.not_mem_digits (by decide) b h
    · exact absurd (List.mem_singleton.1 h) (by decide)
  rw [row_eq]
  intro h
  simp only [List.mem_append] at h
  rcases h with ((h | h) | h) | h
  · exact digits h
  · exact absurd (List.eq_of_mem_replicate h) (by decide)
  · exact absurd h (by decide)
  · obtain ⟨b, -, same⟩ := List.mem_map.1 h
    exact shown b same

theorem toList_format (d : HexDump) : d.format.toList = ['\n'].intercalate d.rows := by
  rw [format, String.toList_intercalate, List.map_map]
  have same : d.rows.map (String.toList ∘ String.ofList) = d.rows := by
    simp only [Function.comp_def, String.toList_ofList, List.map_id']
  rw [same]
  rfl

theorem newline_not_mem_rows {d : HexDump} {line : List Char} (h : line ∈ d.rows) :
    '\n' ∉ line := by
  rw [rows, rowsOf_eq (Nat.le_refl _)] at h
  obtain ⟨i, -, rfl⟩ := List.mem_map.1 h
  exact newline_not_mem_row _

/-- The lines of the dump are the rows. -/
theorem split_format {d : HexDump} (some : d.rows ≠ []) :
    Text.split '\n' d.format.toList = d.rows := by
  rw [toList_format]
  exact Text.split_intercalate some fun _ => newline_not_mem_rows

/-- **The dump reads back.** -/
theorem readColumns_format (d : HexDump) :
    ((Text.split '\n' d.format.toList).flatMap fun line => readColumns (line.take 48)) =
      d.bytes := by
  have back : (d.rows.flatMap fun line => readColumns (line.take 48)) = d.bytes :=
    flatMap_rowsOf (Nat.le_refl _)
  by_cases none : d.rows = []
  · rw [none] at back
    rw [toList_format, none, ← back]
    rfl
  · rw [split_format none, back]

/-! ### Markers -/

section Marks

variable {text : List Char} {first last : Nat}

theorem length_mark (free : text.length ≤ first) (le : first ≤ last) :
    (mark text first last).length = last + 1 := by
  rw [mark]
  split
  · simp only [List.length_append, List.length_replicate, List.length_singleton]
    omega
  · simp only [List.length_append, List.length_replicate, List.length_singleton]
    omega

/-- What a marker has in each column, behind the line that it is added to. -/
theorem getElem?_mark (free : text.length ≤ first) (le : first ≤ last) (i : Nat) :
    (mark text first last)[i]? =
      if i < text.length then text[i]?
      else if i = first ∨ i = last then some '^'
      else if i < first then some ' '
      else if i < last then some '-' else none := by
  rw [mark]
  split
  · simp only [List.getElem?_append, List.length_append, List.length_replicate,
      List.length_singleton, List.getElem?_replicate, List.getElem?_singleton]
    grind
  · simp only [List.getElem?_append, List.length_append, List.length_replicate,
      List.getElem?_replicate, List.getElem?_singleton]
    grind

/-- The sign in a column of the line that points at the bytes from `low` to `high` of a row: below
their digits and below their characters a mark under the first and the last, and dashes between. -/
def sign (low high column : Nat) : Option Char :=
  if column ∈ [3 * low + 1, 3 * high + 1, 50 + low, 50 + high] then some '^'
  else if 3 * low + 1 < column ∧ column < 3 * high + 1 ∨
    50 + low < column ∧ column < 50 + high then some '-'
  else if column < 50 + high then some ' '
  else none

/-- The line that points at the bytes from `low` to `high` of a row. -/
def pointer (low high : Nat) : List Char :=
  mark (mark [] (low * 3 + 1) (high * 3 + 1)) (asciiColumn + low) (asciiColumn + high)

/-- The marker below the digits ends before the one below the characters begins. -/
theorem getElem?_pointer {low high : Nat} (le : low ≤ high) (inRow : high < bytesPerRow)
    (column : Nat) : (pointer low high)[column]? = sign low high column := by
  have below : low * 3 + 1 ≤ high * 3 + 1 := by omega
  have length : (mark [] (low * 3 + 1) (high * 3 + 1)).length = high * 3 + 1 + 1 :=
    length_mark (Nat.zero_le _) below
  have inRow : high < 16 := inRow
  have free : (mark [] (low * 3 + 1) (high * 3 + 1)).length ≤ asciiColumn + low := by
    rw [length, asciiColumn_eq]
    omega
  rw [pointer, getElem?_mark free (by omega), length, getElem?_mark (Nat.zero_le _) below, sign]
  simp only [List.mem_cons, List.not_mem_nil, or_false, List.length_nil, Nat.not_lt_zero, if_false]
  rw [asciiColumn_eq]
  grind

end Marks

/-! ### Windows -/

/-- Where the window for a byte begins. -/
def windowStart (first : Nat) : Nat := first - 5

/-- Where it ends. -/
def windowStop (bytes : Bytes) (first : Nat) : Nat := min bytes.length (windowStart first + 16)

/-- The last of the bytes in the window that a range is about. -/
def lastPointed (bytes : Bytes) (first last : Nat) : Nat :=
  max first (min last (windowStop bytes first - 1))

/-- The bytes in the window. -/
def windowBytes (bytes : Bytes) (first : Nat) : Bytes :=
  (bytes.drop (windowStart first)).take (windowStop bytes first - windowStart first)

/-- A window begins no later than what it is for. -/
theorem start_windowAt_le (bytes : Bytes) (first : Nat) :
    ((HexDump.mk bytes 0).windowAt first).start ≤ first := by
  show 0 + min (first - contextBefore) bytes.length ≤ first
  omega

/-- A window is a single row. -/
theorem length_windowAt_le (d : HexDump) (first : Nat) :
    (d.windowAt first).bytes.length ≤ bytesPerRow := List.length_take_le _ _

theorem formatWithRange_ok (bytes : Bytes) (first last : Nat) :
    ∃ dump, (HexDump.mk bytes 0).formatWithRange first last = .ok dump := by
  rw [formatWithRange]
  dsimp only
  rw [if_neg (Nat.not_lt.2 (start_windowAt_le bytes first))]
  exact ⟨_, rfl⟩

section Windows

variable {bytes : Bytes} {first : Nat}

theorem windowStart_le_stop (inside : first ≤ bytes.length) :
    windowStart first ≤ windowStop bytes first := by
  rw [windowStop, windowStart]
  omega

/-- A window is no longer than a row. -/
theorem windowStop_le (bytes : Bytes) (first : Nat) :
    windowStop bytes first ≤ windowStart first + 16 := Nat.min_le_right ..

/-- The first byte of the range is among the first six of the window. -/
theorem windowStart_le (first : Nat) :
    windowStart first ≤ first ∧ first ≤ windowStart first + 5 := by
  rw [windowStart]
  omega

theorem lastPointed_lt (bytes : Bytes) (first last : Nat) :
    lastPointed bytes first last < windowStart first + 16 := by
  have near := (windowStart_le first).2
  have stop := windowStop_le bytes first
  rw [lastPointed]
  omega

theorem windowAt_eq (inside : first ≤ bytes.length) : (HexDump.mk bytes 0).windowAt first =
    ⟨windowBytes bytes first, windowStart first⟩ := by
  have start : min (first - contextBefore) bytes.length = windowStart first := by
    rw [windowStart, contextBefore]
    omega
  have same : (bytes.drop (windowStart first)).take bytesPerRow = windowBytes bytes first := by
    rw [windowBytes, List.take_eq_take_iff, List.length_drop, windowStop, bytesPerRow]
    omega
  rw [windowAt]
  dsimp only
  rw [start, same, Nat.zero_add]

theorem length_windowBytes (bytes : Bytes) (first : Nat) : (windowBytes bytes first).length =
    windowStop bytes first - windowStart first := by
  rw [windowBytes, List.length_take, List.length_drop, windowStop]
  omega

theorem length_windowBytes_le (bytes : Bytes) (first : Nat) :
    (windowBytes bytes first).length ≤ bytesPerRow := by
  rw [length_windowBytes, windowStop, bytesPerRow]
  omega

/-- A window is shown in one line. -/
theorem toList_format_window (start : Nat) :
    (HexDump.mk (windowBytes bytes first) start).format.toList =
      if windowBytes bytes first = [] then [] else row (windowBytes bytes first) := by
  have few := length_windowBytes_le bytes first
  rw [toList_format, rows]
  dsimp only
  split
  · next none =>
    rw [none]
    rfl
  · next none =>
    obtain ⟨n, more⟩ : ∃ n, (windowBytes bytes first).length = n + 1 :=
      Nat.exists_eq_succ_of_ne_zero (Nat.ne_of_gt (List.length_pos_iff.2 none))
    rw [more, rowsOf_cons n none, List.take_of_length_le few, List.drop_eq_nil_of_le few,
      rowsOf_nil, List.intercalate_singleton]

end Windows

/-! ### Lines -/

/-- The line above the columns, for the bytes from `start` to `last`. -/
def headingLine (start last : Nat) : List Char :=
  List.rightpad 48 ' ' s!"Hex (bytes {start}-{last})".toList ++ "| ASCII".toList

theorem toList_padded (text : String) (width : Nat) :
    (padded text width).toList = List.rightpad width ' ' text.toList := by
  rw [padded, String.toList_append, String.toList_ofList, ← String.length_toList]
  rfl

theorem headingLine_eq (start last : Nat) : headingLine start last =
    (padded s!"Hex (bytes {start}-{last})" hexWidth).toList ++ "| ASCII".toList := by
  rw [toList_padded]
  rfl

/-- The line under the heading. -/
def ruleLine : List Char :=
  List.replicate 48 '-' ++ '+' :: List.replicate 18 '-'

theorem newline_not_mem_headingLine (start last : Nat) : '\n' ∉ headingLine start last := by
  have number (n : Nat) : '\n' ∉ (toString n).toList := by
    show '\n' ∉ (Nat.repr n).toList
    rw [Nat.toList_repr]
    intro mem
    cases Nat.isDigit_of_mem_toDigits (b := 10) (by decide) (by decide) mem
  rw [headingLine, List.rightpad]
  simp only [String.toList_append, List.mem_append, not_or]
  refine ⟨⟨⟨⟨⟨⟨by decide, number start⟩, by decide⟩, number last⟩, by decide⟩, fun mem => ?_⟩,
    by decide⟩
  exact absurd (List.eq_of_mem_replicate mem) (by decide)

theorem newline_not_mem_ruleLine : '\n' ∉ ruleLine := by decide

theorem toList_formatWithHeading (d : HexDump) : d.formatWithHeading.toList =
    headingLine d.start (d.start + d.bytes.length - 1) ++ '\n' :: (ruleLine ++ '\n' ::
      d.format.toList) := by
  have ascii : "| ASCII\n".toList = "| ASCII".toList ++ ['\n'] := by decide
  have plus : "+".toList = ['+'] := by decide
  have newline : "\n".toList = ['\n'] := by decide
  rw [formatWithHeading]
  simp only [String.toList_append, String.toList_ofList, headingLine_eq, ruleLine, hexWidth,
    bytesPerRow, ascii, plus, newline, List.append_assoc, List.cons_append, List.nil_append]

theorem newline_not_mem_pointer {low high : Nat} (le : low ≤ high) (inRow : high < bytesPerRow) :
    '\n' ∉ pointer low high := by
  intro mem
  obtain ⟨column, there⟩ := List.mem_iff_getElem?.1 mem
  rw [getElem?_pointer le inRow, sign] at there
  split_ifs at there <;> simp at there

section Ranges

variable {bytes : Bytes} {first : Nat}

/-- What is shown for a range: the window and the line that points into it. -/
theorem formatWithRange_eq (inside : first ≤ bytes.length) (last : Nat) :
    (HexDump.mk bytes 0).formatWithRange first last =
      .ok ((HexDump.mk (windowBytes bytes first) (windowStart first)).formatWithHeading ++ "\n" ++
        String.ofList (pointer (first - windowStart first)
          (lastPointed bytes first last - windowStart first))) := by
  have start := (windowStart_le first).1
  -- a range that ends before it begins is as good as its first byte
  have single : max first (min (max last first) (windowStop bytes first - 1)) =
      lastPointed bytes first last := by
    rw [lastPointed]
    omega
  have high : max (first - windowStart first) (min (max last first - windowStart first)
      ((windowBytes bytes first).length - 1)) =
        lastPointed bytes first last - windowStart first := by
    rw [length_windowBytes, Nat.sub_right_comm, Nat.sub_min_sub_right, Nat.sub_max_sub_right,
      single]
  rw [formatWithRange, windowAt_eq inside]
  dsimp only
  rw [if_neg (Nat.not_lt.2 start), high]
  rfl

/-- A window is shown in four lines, the last of which is the one with the markers. -/
theorem split_formatWithHeading (bytes : Bytes) (first start : Nat) {marks : List Char}
    (plain : '\n' ∉ marks) :
    Text.split '\n' ((HexDump.mk (windowBytes bytes first) start).formatWithHeading ++ "\n" ++
        String.ofList marks).toList =
      [headingLine start (start + (windowBytes bytes first).length - 1), ruleLine,
        (HexDump.mk (windowBytes bytes first) start).format.toList, marks] := by
  have shown : '\n' ∉ (HexDump.mk (windowBytes bytes first) start).format.toList := by
    rw [toList_format_window]
    split
    · exact List.not_mem_nil
    · exact newline_not_mem_row _
  have newline : "\n".toList = ['\n'] := by decide
  simp only [String.toList_append, toList_formatWithHeading, newline, String.toList_ofList,
    List.append_assoc, List.cons_append, List.nil_append]
  rw [Text.split_append, Text.split_append, Text.split_append,
    Text.split_eq_singleton (newline_not_mem_headingLine _ _),
    Text.split_eq_singleton newline_not_mem_ruleLine, Text.split_eq_singleton shown,
    Text.split_eq_singleton plain]
  rfl

/-- The lines of a dump that points at the bytes from `first` to `last`, as far as they are in the
window: its heading, what it shows and the line with the markers. -/
structure Points (bytes : Bytes) (first last : Nat) (heading shown marks : List Char) : Prop where
  heading : windowStart first < windowStop bytes first →
    heading = headingLine (windowStart first) (windowStop bytes first - 1)
  shown : Shows (windowBytes bytes first) shown
  marks : ∀ column, marks[column]? =
    sign (first - windowStart first) (lastPointed bytes first last - windowStart first) column
  apart : 3 * (lastPointed bytes first last - windowStart first) + 1 <
    50 + (first - windowStart first)

/-- **A dump points at the range it is for.** -/
theorem formatWithRange_points (inside : first ≤ bytes.length) (last : Nat) :
    ∃ text heading shown marks, (HexDump.mk bytes 0).formatWithRange first last = .ok text ∧
      Text.split '\n' text.toList = [heading, ruleLine, shown, marks] ∧
      Points bytes first last heading shown marks := by
  obtain ⟨start, near⟩ := windowStart_le first
  have before := lastPointed_lt bytes first last
  have ordered : first - windowStart first ≤ lastPointed bytes first last - windowStart first :=
    Nat.sub_le_sub_right (Nat.le_max_left ..) _
  have inRow : lastPointed bytes first last - windowStart first < bytesPerRow := by
    rw [bytesPerRow]
    omega
  refine ⟨_, _, _, _, formatWithRange_eq inside last,
    split_formatWithHeading bytes first _ (newline_not_mem_pointer ordered inRow), ?_⟩
  refine ⟨fun _ => ?_, ?_, getElem?_pointer ordered inRow, ?_⟩
  · rw [length_windowBytes, Nat.add_sub_cancel' (windowStart_le_stop inside)]
  · rw [toList_format_window]
    split
    · next none =>
      rw [none]
      exact shows_nil
    · exact shows_row (length_windowBytes_le bytes first)
  · rw [bytesPerRow] at inRow
    omega

end Ranges

/-! ### Dumps -/

theorem length_rows (d : HexDump) : d.rows.length = (d.bytes.length + 15) / 16 := by
  rw [rows, rowsOf_eq (Nat.le_refl _), List.length_map, List.length_range]

/-- Each row shows the sixteen bytes of its place, or as many as there are. -/
theorem shows_of_rows {d : HexDump} {i : Nat} {line : List Char} (h : d.rows[i]? = some line) :
    16 * i < d.bytes.length ∧ Shows ((d.bytes.drop (16 * i)).take 16) line := by
  have inside : i < d.rows.length := (List.getElem?_eq_some_iff.1 h).1
  rw [length_rows] at inside
  rw [rows, rowsOf_eq (Nat.le_refl _), List.getElem?_map, List.getElem?_range inside] at h
  obtain rfl := Option.some.inj h
  exact ⟨by omega, shows_row (List.length_take_le _ _)⟩

theorem rows_ne_nil {d : HexDump} (some : d.bytes ≠ []) : d.rows ≠ [] := by
  have positive := List.length_pos_iff.2 some
  refine List.length_pos_iff.1 ?_
  rw [length_rows]
  omega

/-- **Dumps point at the right bytes.**  For a range that begins in the bytes or right behind them,
whatever its end, four lines are shown: the window from five bytes before the range on, in one row
under a heading with its bounds, and the marks below the digits and below the characters of the
first byte and the last one of the range in the window, with dashes between if there is another.
A dump of all bytes has a row for each sixteen, with the characters behind the bar, and the digits
in its lines read back to the bytes. -/
theorem dumps_pointed :
    (∀ (bytes : Bytes) (first last : Nat), first ≤ bytes.length → ∃ text heading shown marks,
      (HexDump.mk bytes 0).formatWithRange first last = .ok text ∧
      Text.split '\n' text.toList = [heading, ruleLine, shown, marks] ∧
      Points bytes first last heading shown marks) ∧
    ∀ d : HexDump,
      d.rows.length = (d.bytes.length + 15) / 16 ∧
      (∀ i line, d.rows[i]? = some line →
        16 * i < d.bytes.length ∧ Shows ((d.bytes.drop (16 * i)).take 16) line) ∧
      (d.bytes ≠ [] → Text.split '\n' d.format.toList = d.rows) ∧
      ((Text.split '\n' d.format.toList).flatMap fun line => readColumns (line.take 48)) =
        d.bytes :=
  ⟨fun _ _ last inside => formatWithRange_points inside last, fun d => ⟨length_rows d,
    fun _ _ => shows_of_rows, fun some => split_format (rows_ne_nil some), readColumns_format d⟩⟩

/-- `Hello World!` -/
def hello : Bytes := [72, 101, 108, 108, 111, 32, 87, 111, 114, 108, 100, 33]

/-- The condition of `dumps_pointed` holds of a range in the middle of some bytes: these are shown,
and there are marks in the columns of its ends. -/
theorem dumps_pointed_hello :
    4 ≤ hello.length ∧ hello ≠ [] ∧
    Text.split '\n' (HexDump.mk hello 0).format.toList = (HexDump.mk hello 0).rows ∧
    ∃ text heading shown marks,
      (HexDump.mk hello 0).formatWithRange 4 7 = .ok text ∧
      Text.split '\n' text.toList = [heading, ruleLine, shown, marks] ∧
      heading = headingLine 0 11 ∧ readColumns (shown.take 48) = hello ∧
      shown.drop 50 = "Hello World!".toList ∧
      marks[13]? = some '^' ∧ marks[22]? = some '^' ∧ marks[54]? = some '^' ∧
      marks[55]? = some '-' ∧ marks[57]? = some '^' ∧ marks[58]? = none := by
  obtain ⟨ranges, whole⟩ := dumps_pointed
  obtain ⟨text, heading, shown, marks, formatted, lines, points⟩ := ranges hello 4 7 (by decide)
  obtain ⟨-, -, rows, -⟩ := whole (HexDump.mk hello 0)
  refine ⟨by decide, by decide, rows (by decide), text, heading, shown, marks, formatted, lines,
    points.heading (by decide), points.shown.digits,
    (forall₂_standsFor_iff.1 points.shown.characters).trans (by decide), ?_, ?_, ?_, ?_, ?_, ?_⟩
  all_goals
    rw [points.marks]
    decide

end BrokerExam.HexDump
