import Mathlib.Data.List.Basic
import MiddleEnd.Tree.Printer

/-!
# Lines and layouts

Blocks may stand inside operands, conditions and arguments, so that a text can
begin in the middle of a line and end in the middle of another.  Such a text is
a `Layout`: what it adds to the line on which it begins, and the lines that it
begins itself.  A line knows how many blocks are around it, and the level at
which it is written only decides how many spaces it starts with.

`Lays` and `LaysLines` say of a text that it is one layout, or one list of whole
lines, at every level.  The rules below follow the ways in which the printer
puts texts together.
-/

namespace MiddleEnd

/-! ## Lines -/

/-- A line: how many blocks are around it, and what stands behind its spaces. -/
structure Line where
  depth : Nat
  text : List Char
  unbroken : '\n' ∉ text

namespace Line

/-- The line in a program that is written at the given level. -/
def render (level : Int32) (line : Line) : List Char :=
  (indentation (level + Int32.ofNat line.depth)).toList ++ line.text

/-- The line inside one more block. -/
def deeper (line : Line) : Line :=
  { line with depth := line.depth + 1 }

theorem render_deeper (level : Int32) (line : Line) :
    line.deeper.render level = line.render (level + 1) := by
  have shift :
      level + Int32.ofNat (line.depth + 1) =
        level + 1 + Int32.ofNat line.depth := by
    rw [Nat.add_comm, Int32.ofNat_add, ← Int32.add_assoc]
    rfl
  rw [render, render, deeper, shift]

/-- The line with more text at its end. -/
def extend (line : Line) (more : List Char) (unbroken : '\n' ∉ more) : Line where
  depth := line.depth
  text := line.text ++ more
  unbroken := by
    rw [List.mem_append, not_or]
    exact ⟨line.unbroken, unbroken⟩

theorem render_extend
    (level : Int32)
    (line : Line)
    (more : List Char)
    (unbroken : '\n' ∉ more) :
    (line.extend more unbroken).render level = line.render level ++ more := by
  simp [render, extend]

/-- Lines, each ended by a newline. -/
def ended (level : Int32) (lines : List Line) : List Char :=
  lines.flatMap fun line => line.render level ++ ['\n']

/-- Lines, each begun by a newline. -/
def begun (level : Int32) (lines : List Line) : List Char :=
  lines.flatMap fun line => '\n' :: line.render level

/-- A newline can be counted with the line before it or behind it. -/
theorem newline_ended (level : Int32) (lines : List Line) :
    '\n' :: ended level lines = begun level lines ++ ['\n'] := by
  induction lines with
  | nil => rfl
  | cons line rest hypothesis =>
      simp only [ended, begun, List.flatMap_cons] at hypothesis ⊢
      rw [List.append_assoc, List.append_assoc, ← hypothesis]
      simp

theorem ended_map_deeper (level : Int32) (lines : List Line) :
    ended level (lines.map deeper) = ended (level + 1) lines := by
  simp [ended, List.flatMap_map, render_deeper]

end Line

/-! ## Layouts -/

/-- A text that goes on a line and begins others. -/
structure Layout where
  /-- What the text adds to the line on which it begins. -/
  first : List Char
  unbroken : '\n' ∉ first
  /-- The lines that begin inside the text. -/
  lines : List Line

namespace Layout

def render (level : Int32) (layout : Layout) : List Char :=
  layout.first ++ Line.begun level layout.lines

/-- Of two texts, the second goes on the line on which the first ends. -/
theorem exists_append (layout other : Layout) :
    ∃ both : Layout,
      both.lines.map Line.depth =
          layout.lines.map Line.depth ++ other.lines.map Line.depth ∧
        ∀ level,
          both.render level = layout.render level ++ other.render level := by
  rcases layout with ⟨first, unbroken, lines⟩
  rcases lines.eq_nil_or_concat with rfl | ⟨earlier, last, rfl⟩
  · refine ⟨⟨first ++ other.first, ?_, other.lines⟩, rfl, ?_⟩
    · rw [List.mem_append, not_or]
      exact ⟨unbroken, other.unbroken⟩
    · intro level
      simp [render, Line.begun]
  · refine ⟨⟨first, unbroken,
      earlier ++ last.extend other.first other.unbroken :: other.lines⟩, ?_, ?_⟩
    · simp [Line.extend]
    · intro level
      simp [render, Line.begun, Line.render_extend]

end Layout

/-- At every level the text is one layout, whose lines have the given depths. -/
def Lays (text : Int32 → String) (depths : List Nat) : Prop :=
  ∃ layout : Layout,
    layout.lines.map Line.depth = depths ∧
      ∀ level, (text level).toList = layout.render level

/-- At every level the text is made of whole lines of the given depths. -/
def LaysLines (text : Int32 → String) (depths : List Nat) : Prop :=
  ∃ lines : List Line,
    lines.map Line.depth = depths ∧
      ∀ level, (text level).toList = Line.ended level lines

section

variable {text other : Int32 → String} {depths otherDepths : List Nat}

theorem Lays.constant {fixed : String} (unbroken : '\n' ∉ fixed.toList) :
    Lays (fun _ => fixed) [] :=
  ⟨⟨fixed.toList, unbroken, []⟩, rfl, fun _ => (List.append_nil _).symm⟩

theorem Lays.append (lays : Lays text depths) (otherLays : Lays other otherDepths) :
    Lays (fun level => text level ++ other level) (depths ++ otherDepths) := by
  rcases lays with ⟨layout, rfl, written⟩
  rcases otherLays with ⟨otherLayout, rfl, otherWritten⟩
  rcases layout.exists_append otherLayout with ⟨both, sameDepths, bothWritten⟩
  refine ⟨both, sameDepths, fun level => ?_⟩
  rw [String.toList_append, written, otherWritten, bothWritten]

theorem Lays.before
    (lays : Lays text depths)
    {fixed : String}
    (unbroken : '\n' ∉ fixed.toList) :
    Lays (fun level => fixed ++ text level) depths :=
  (Lays.constant unbroken).append lays

theorem Lays.behind
    (lays : Lays text depths)
    {fixed : String}
    (unbroken : '\n' ∉ fixed.toList) :
    Lays (fun level => text level ++ fixed) depths := by
  have both := lays.append (Lays.constant unbroken)
  rwa [List.append_nil] at both

theorem Lays.parenthesize (lays : Lays text depths) (needed : Bool) :
    Lays (fun level => parenthesize needed (text level)) depths := by
  cases needed with
  | false => exact lays
  | true => exact (lays.before (by decide)).behind (by decide)

/-- Texts with commas between them are laid out one after the other. -/
theorem Lays.commas
    {α : Type}
    {texts : α → Int32 → String}
    {depthsOf : α → List Nat}
    {entries : List α}
    (each : ∀ entry ∈ entries, Lays (texts entry) (depthsOf entry)) :
    Lays
      (fun level => ", ".intercalate (entries.map fun entry => texts entry level))
      (entries.flatMap depthsOf) := by
  induction entries with
  | nil => exact Lays.constant (by decide)
  | cons entry rest hypothesis =>
      rcases List.forall_mem_cons.1 each with ⟨here, others⟩
      cases rest with
      | nil => simpa using here
      | cons next rest =>
          simpa using (here.behind (by decide)).append (hypothesis others)

/-- A statement begins a line of its own. -/
theorem Lays.line (lays : Lays text depths) :
    LaysLines (fun level => indentation level ++ text level ++ "\n") (0 :: depths) := by
  rcases lays with ⟨layout, rfl, written⟩
  refine ⟨⟨0, layout.first, layout.unbroken⟩ :: layout.lines, rfl, ?_⟩
  intro level
  have spaces : (indentation level).toList ++ layout.first =
      Line.render level ⟨0, layout.first, layout.unbroken⟩ := by
    simp [indentation, Line.render]
  have newlines := Line.newline_ended level layout.lines
  rw [Line.ended, List.flatMap_cons, ← spaces, ← Line.ended]
  simp only [String.toList_append, written, Layout.render, List.append_assoc]
  rw [List.singleton_append, newlines]
  rfl

theorem Lays.closedLine (lays : Lays text depths) :
    LaysLines (fun level => indentation level ++ text level ++ ";\n") (0 :: depths) := by
  have lines := (lays.behind (by decide : '\n' ∉ ";".toList)).line
  have closing : ";\n" = ";" ++ "\n" := rfl
  simpa only [closing, String.append_assoc] using lines

theorem LaysLines.nil : LaysLines (fun _ => "") [] :=
  ⟨[], rfl, fun _ => rfl⟩

theorem LaysLines.append
    (lays : LaysLines text depths)
    (otherLays : LaysLines other otherDepths) :
    LaysLines (fun level => text level ++ other level) (depths ++ otherDepths) := by
  rcases lays with ⟨lines, rfl, written⟩
  rcases otherLays with ⟨otherLines, rfl, otherWritten⟩
  refine ⟨lines ++ otherLines, List.map_append, fun level => ?_⟩
  rw [String.toList_append, written, otherWritten, Line.ended, Line.ended,
    Line.ended, List.flatMap_append]

/-- Between braces, lines are one deeper than the line of the closing brace. -/
theorem LaysLines.block (lays : LaysLines text depths) :
    Lays
      (fun level =>
        "\x7b\n" ++ text (level + 1) ++ indentation level ++ "\x7d")
      (depths.map (· + 1) ++ [0]) := by
  rcases lays with ⟨lines, rfl, written⟩
  let closing : Line := ⟨0, ['\x7d'], by decide⟩
  refine ⟨⟨['\x7b'], by decide, lines.map Line.deeper ++ [closing]⟩, ?_, ?_⟩
  · simp [closing, Line.deeper]
  · intro level
    have inside : (text (level + 1)).toList =
        Line.ended level (lines.map Line.deeper) := by
      rw [written, Line.ended_map_deeper]
    have brace : (indentation level).toList ++ ['\x7d'] = closing.render level := by
      simp [indentation, Line.render, closing]
    calc
      _ = '\x7b' :: ('\n' :: Line.ended level (lines.map Line.deeper)) ++
            ((indentation level).toList ++ ['\x7d']) := by
        simp [inside]
      _ = '\x7b' :: (Line.begun level (lines.map Line.deeper) ++ ['\n']) ++
            closing.render level := by
        rw [Line.newline_ended, brace]
      _ = _ := by
        simp [Layout.render, Line.begun]

end

/-! ## Indenting a text -/

/--
A text with spaces put in at the start of every line.  The first argument says
whether the text begins a line.
-/
def indentLines (width : Nat) : Bool → List Char → List Char
  | _, [] => []
  | fresh, character :: rest =>
      (if fresh then List.replicate width ' ' else []) ++
        character :: indentLines width (character = '\n') rest

theorem indentLines_inside
    (width : Nat)
    {line : List Char}
    (unbroken : '\n' ∉ line)
    (rest : List Char) :
    indentLines width false (line ++ '\n' :: rest) =
      line ++ '\n' :: indentLines width true rest := by
  induction line with
  | nil => rfl
  | cons character others hypothesis =>
      rw [List.mem_cons, not_or] at unbroken
      rw [List.cons_append, indentLines, decide_eq_false (Ne.symm unbroken.1),
        hypothesis unbroken.2]
      rfl

/-- A line that is ended by a newline gets its spaces, and so do those behind it. -/
theorem indentLines_line
    (width : Nat)
    {line : List Char}
    (unbroken : '\n' ∉ line)
    (rest : List Char) :
    indentLines width true (line ++ '\n' :: rest) =
      List.replicate width ' ' ++ line ++
        '\n' :: indentLines width true rest := by
  have fresh :
      indentLines width true (line ++ '\n' :: rest) =
        List.replicate width ' ' ++
          indentLines width false (line ++ '\n' :: rest) := by
    cases line <;> rfl
  rw [fresh, indentLines_inside width unbroken, List.append_assoc]

theorem Line.newline_not_mem_render (level : Int32) (line : Line) :
    '\n' ∉ line.render level := by
  rw [render, indentation, String.toList_ofList, List.mem_append, not_or]
  refine ⟨?_, line.unbroken⟩
  intro space
  exact absurd (List.eq_of_mem_replicate space) (by decide)

/-- Lines that get the same spaces before them as they have at another level. -/
theorem indentLines_ended
    {level base : Int32}
    {width : Nat}
    {lines : List Line}
    (shifted :
      ∀ line ∈ lines,
        line.render level = List.replicate width ' ' ++ line.render base) :
    indentLines width true (Line.ended base lines) = Line.ended level lines := by
  induction lines with
  | nil => rfl
  | cons line rest hypothesis =>
      rcases List.forall_mem_cons.1 shifted with ⟨here, others⟩
      have below := hypothesis others
      simp only [Line.ended, List.flatMap_cons, List.append_assoc,
        List.singleton_append] at below ⊢
      rw [indentLines_line _ (line.newline_not_mem_render base), below, here]

/-! ## Levels that fit -/

/-- The integer is the value of a 32-bit word. -/
def FitsWord (value : Int) : Prop :=
  Int32.minValue.toInt ≤ value ∧ value ≤ Int32.maxValue.toInt

instance (value : Int) : Decidable (FitsWord value) :=
  inferInstanceAs (Decidable (_ ∧ _))

theorem toInt_add_ofNat_mul_two
    {level : Int32}
    {depth : Nat}
    (fits : FitsWord (2 * (depth + level.toInt))) :
    ((level + Int32.ofNat depth) * 2).toInt = 2 * (depth + level.toInt) := by
  rcases fits with ⟨low, high⟩
  rw [Int32.toInt_mul, Int32.toInt_add, Int32.toInt_ofNat', Int.add_bmod_bmod,
    Int.bmod_mul_bmod, show (2 : Int32).toInt = 2 from rfl, Int.add_comm,
    Int.mul_comm]
  exact Int.bmod_eq_of_le low (Int.lt_add_one_of_le high)

/-- Where nothing overflows, there are two spaces for each block and level. -/
theorem toList_indentation
    {level : Int32}
    {depth : Nat}
    (fits : FitsWord (2 * (depth + level.toInt))) :
    (indentation (level + Int32.ofNat depth)).toList =
      List.replicate (max 0 (2 * (depth + level.toInt))).toNat ' ' := by
  have positive :
      (max 0 (2 * (depth + level.toInt))).toNat =
        (2 * (depth + level.toInt)).toNat := by
    omega
  rw [indentation, String.toList_ofList, Int32.toNatClampNeg,
    toInt_add_ofNat_mul_two fits, positive]

/-- A line at a level that is not negative is the one at level zero, indented. -/
theorem Line.render_eq_replicate_append
    {level : Int32}
    {line : Line}
    (nonnegative : 0 ≤ level.toInt)
    (fits : FitsWord (2 * (line.depth + level.toInt))) :
    line.render level =
      List.replicate (2 * level.toInt).toNat ' ' ++ line.render 0 := by
  have zero : (0 : Int32).toInt = 0 := rfl
  have fitsZero : FitsWord (2 * (line.depth + (0 : Int32).toInt)) := by
    have least : Int32.minValue.toInt ≤ 0 := by decide
    have greatest := fits.2
    rw [zero]
    exact ⟨by omega, by omega⟩
  have spaces :
      (max 0 (2 * (line.depth + level.toInt))).toNat =
        (2 * level.toInt).toNat +
          (max 0 (2 * (line.depth + (0 : Int32).toInt))).toNat := by
    rw [zero]
    omega
  rw [render, render, toList_indentation fits, toList_indentation fitsZero,
    spaces, List.replicate_add, List.append_assoc]

end MiddleEnd
