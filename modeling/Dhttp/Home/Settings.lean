import Dhttp.Home.Names

namespace Dhttp.Home
open Dhttp.Lib
set_option autoImplicit true

structure LineCol where
  line : Nat
  column : Nat
  deriving DecidableEq, Repr

namespace LineCol

/-- Where the reader stands behind one more character. -/
def advance (last : LineCol) (char : Char) : LineCol :=
  if char = '\n' then ⟨last.line + 1, 1⟩ else ⟨last.line, last.column + 1⟩

/-- One round of the fold; `error` breaks it off. -/
def fold (offset : Nat) (last : LineCol) (indexed : Char × Nat) : Except LineCol LineCol :=
  let current := last.advance indexed.1
  if indexed.2 = offset then .error current else .ok current

/-- The index counts characters, whatever the offset counts. -/
def locate (source : Text) (offset : Nat) : LineCol :=
  match source.zipIdx.foldlM (fold offset) ⟨1, 1⟩ with
  | .ok lineCol => lineCol
  | .error lineCol => lineCol

end LineCol

structure FileLineCol (Path : Type) where
  path : Path
  lineCol : LineCol

/-- The text of a settings file is kept when it was loaded. -/
structure DhttpSettingsFile (Path : Type) where
  path : Path
  content : Option Text

def DhttpSettingsFile.locate {Path : Type} (file : DhttpSettingsFile Path) (offset : Nat) :
    Option (FileLineCol Path) :=
  file.content.map fun source => ⟨file.path, LineCol.locate source offset⟩

/-- The line and the column, from 1 on, of what follows a text. -/
def positionAfter (before : Text) : LineCol :=
  ⟨before.count '\n' + 1, (afterLast '\n' before).length + 1⟩

theorem positionAfter_concat (s : Text) (c : Char) :
    positionAfter (s ++ [c]) = (positionAfter s).advance c := by
  rw [LineCol.advance]
  by_cases hc : c = '\n'
  · rw [if_pos hc, hc, positionAfter, List.count_append, List.count_singleton_self,
      afterLast_concat_sep]
    rfl
  · have hn : '\n' ∉ [c] := by simpa using Ne.symm hc
    rw [if_neg hc, positionAfter, List.count_append, List.count_eq_zero.2 hn,
      afterLast_append s hn, List.length_append]
    rfl

theorem foldl_advance (s : Text) : s.foldl LineCol.advance ⟨1, 1⟩ = positionAfter s := by
  induction s using List.reverseRecOn with
  | nil => rfl
  | append_singleton s c ih =>
    rw [List.foldl_append, ih, positionAfter_concat]
    rfl

/-- The fold stops behind the character whose index is the offset. -/
theorem foldlM_fold (source : Text) (h : k ≤ offset) (last : LineCol) :
    (source.zipIdx k).foldlM (LineCol.fold offset) last =
      if offset < k + source.length then
        .error ((source.take (offset + 1 - k)).foldl LineCol.advance last)
      else .ok (source.foldl LineCol.advance last) := by
  induction source generalizing k last with
  | nil =>
    rw [List.length_nil, Nat.add_zero, if_neg (Nat.not_lt.2 h)]
    rfl
  | cons c source ih =>
    rw [List.zipIdx_cons, List.foldlM_cons, LineCol.fold]
    by_cases hk : k = offset
    · have htake : offset + 1 - k = 1 := by omega
      rw [if_pos hk, if_pos (by rw [List.length_cons]; omega), htake]
      rfl
    · have htake : offset + 1 - k = (offset + 1 - (k + 1)) + 1 := by omega
      have hlength : k + (c :: source).length = k + 1 + source.length := by
        rw [List.length_cons]
        omega
      rw [if_neg hk, htake, List.take_succ_cons, List.foldl_cons, List.foldl_cons, hlength]
      exact ih (by omega) (last.advance c)

/-- The offset is read as a number of characters, and one more is counted. -/
theorem locate_eq (source : Text) (offset : Nat) :
    LineCol.locate source offset = positionAfter (source.take (offset + 1)) := by
  rw [LineCol.locate, foldlM_fold source (Nat.zero_le offset)]
  by_cases h : offset < 0 + source.length
  · rw [if_pos h, ← foldl_advance]
    rfl
  · have hlength : source.length ≤ offset + 1 := by omega
    rw [if_neg h, ← foldl_advance, List.take_of_length_le hlength]

/-- Every character moves the position on. -/
theorem positionAfter_append (h : positionAfter (s ++ t) = positionAfter s) : t = [] := by
  rw [positionAfter, positionAfter, LineCol.mk.injEq, List.count_append] at h
  obtain ⟨hline, hcolumn⟩ := h
  have hn : '\n' ∉ t := List.count_eq_zero.1 (by omega)
  rw [afterLast_append s hn, List.length_append] at hcolumn
  exact List.length_eq_zero_iff.1 (by omega)

theorem length_le_utf8Length (s : Text) : s.length ≤ utf8Length s := by
  induction s with
  | nil => exact Nat.zero_le _
  | cons c s ih =>
    have hc := c.utf8Size_pos
    rw [utf8Length] at ih
    rw [utf8Length, List.map_cons, List.sum_cons, List.length_cons]
    omega

/-- The position of a byte offset is found at the end of the text and nowhere else. -/
theorem locate_iff (before after : Text) :
    LineCol.locate (before ++ after) (utf8Length before) = positionAfter before ↔ after = [] := by
  have hlength := length_le_utf8Length before
  rw [locate_eq, List.take_append, List.take_of_length_le (by omega)]
  constructor
  · intro h
    have htake := positionAfter_append h
    rw [List.take_eq_nil_iff] at htake
    exact htake.resolve_left (by omega)
  · intro h
    rw [h, List.take_nil, List.append_nil]

/-- The value in `[default]`, `name = "x"` begins in column 8 and is reported in column 9. -/
theorem locate_default_name : ¬ ∀ before after, after ≠ [] →
    LineCol.locate (before ++ after) (utf8Length before) = positionAfter before := by
  intro h
  exact absurd (h "[default]\nname = ".toList "\"x\"\n".toList (by decide)) (by decide)

end Dhttp.Home
