import Mathlib.Algebra.GroupWithZero.Nat
import Mathlib.Data.List.Basic

/-!
# Lines of a text

A text is read as lines: a break ends a line, and what follows the last break is a line of its
own unless it is empty. A text that ends its last line may be followed by anything: its lines stay
what they are (`lines_append`). A text with breaks in it is never one line of those it is written
among, since each break makes a line more (`lines_join_eq_iff`).
-/

set_option autoImplicit false

namespace LocaleLint.Text

/-- The lines of a text of which a part of the first line has been read. -/
def linesFrom (line : List Char) : List Char → List (List Char)
  | [] => if line.isEmpty then [] else [line]
  | c :: rest => if c = '\n' then line :: linesFrom [] rest else linesFrom (line ++ [c]) rest

/-- The lines of a text, without their breaks. -/
def lines (text : String) : List String :=
  (linesFrom [] text.toList).map String.ofList

/-- The number of breaks in a text. -/
def breaks (text : String) : Nat :=
  text.toList.count '\n'

/-- Whether a text stops where a line may start: it is empty, or ends in a break. -/
def EndsLine (text : String) : Prop :=
  text = "" ∨ ∃ front, text = front ++ "\n"

/-- The empty text stops where a line may start. -/
theorem endsLine_empty : EndsLine "" :=
  .inl rfl

/-- A text with a break behind it stops where a line may start. -/
theorem endsLine_append_break (front : String) : EndsLine (front ++ "\n") :=
  .inr ⟨front, rfl⟩

/-- Texts that stop where a line may start do so when they are joined. -/
theorem EndsLine.append {first second : String} (hfirst : EndsLine first)
    (hsecond : EndsLine second) : EndsLine (first ++ second) := by
  rcases hsecond with rfl | ⟨front, rfl⟩
  · rw [String.append_empty]
    exact hfirst
  · rw [← String.append_assoc]
    exact endsLine_append_break (first ++ front)

/-- A line is read up to its break. -/
theorem linesFrom_of_not_mem (line : List Char) {s : List Char} (h : '\n' ∉ s)
    (rest : List Char) : linesFrom line (s ++ '\n' :: rest) = (line ++ s) :: linesFrom [] rest := by
  induction s generalizing line with
  | nil => rw [List.nil_append, linesFrom, if_pos rfl, List.append_nil]
  | cons c s ih =>
    rw [List.mem_cons, not_or] at h
    rw [List.cons_append, linesFrom, if_neg (Ne.symm h.1), ih (line ++ [c]) h.2,
      List.append_assoc, List.singleton_append]

/-- Nothing that was read before a break is of account behind it. -/
theorem linesFrom_append_break (line s rest : List Char) :
    linesFrom line (s ++ '\n' :: rest) = linesFrom line (s ++ ['\n']) ++ linesFrom [] rest := by
  induction s generalizing line with
  | nil => simp [linesFrom]
  | cons c s ih =>
    rw [List.cons_append, List.cons_append, linesFrom, linesFrom]
    split
    · rw [ih, List.cons_append]
    · exact ih (line ++ [c])

/-- Behind a text that stops where a line may start the lines are those of the rest. -/
theorem lines_append {first : String} (h : EndsLine first) (second : String) :
    lines (first ++ second) = lines first ++ lines second := by
  rcases h with rfl | ⟨front, rfl⟩
  · rw [String.empty_append]
    rfl
  · have hbreak : "\n".toList = ['\n'] := rfl
    unfold lines
    rw [String.toList_append, String.toList_append, hbreak, List.append_assoc,
      List.singleton_append, linesFrom_append_break, List.map_append]

/-- A text without breaks is one line, once a break ends it. -/
theorem lines_of_not_mem {line : String} (h : '\n' ∉ line.toList) :
    lines (line ++ "\n") = [line] := by
  have hbreak : "\n".toList = ['\n'] := rfl
  unfold lines
  rw [String.toList_append, hbreak, linesFrom_of_not_mem [] h]
  simp [linesFrom]

/-- Texts without breaks are the lines that they are written as. -/
theorem lines_join {texts : List String} (h : ∀ text ∈ texts, '\n' ∉ text.toList) :
    lines (String.join (texts.map (· ++ "\n"))) = texts := by
  induction texts with
  | nil => rfl
  | cons text rest ih =>
    obtain ⟨htext, hrest⟩ := List.forall_mem_cons.1 h
    rw [List.map_cons, String.join_cons, lines_append (endsLine_append_break text),
      lines_of_not_mem htext, ih hrest, List.singleton_append]

/-- The breaks of joined texts are those of both. -/
theorem breaks_append (first second : String) :
    breaks (first ++ second) = breaks first + breaks second := by
  rw [breaks, String.toList_append, List.count_append]
  rfl

/-- A text has no breaks exactly if the character for them is not in it. -/
theorem breaks_eq_zero_iff {text : String} : breaks text = 0 ↔ '\n' ∉ text.toList :=
  List.count_eq_zero

/-- Texts have no breaks together exactly if none has any. -/
theorem sum_breaks_eq_zero_iff {texts : List String} :
    (texts.map breaks).sum = 0 ↔ ∀ text ∈ texts, '\n' ∉ text.toList := by
  rw [List.sum_eq_zero_iff_forall_eq_nat, List.forall_mem_map]
  simp only [breaks_eq_zero_iff]

/-- Every break ends a line. -/
theorem length_linesFrom (line s : List Char) :
    (linesFrom line (s ++ ['\n'])).length = s.count '\n' + 1 := by
  induction s generalizing line with
  | nil => simp [linesFrom]
  | cons c s ih =>
    rw [List.cons_append, linesFrom]
    split
    · next hbreak => rw [List.length_cons, ih, hbreak, List.count_cons_self]
    · next hne => rw [ih, List.count_cons_of_ne hne]

/-- A text has one more line than breaks, once a break ends it. -/
theorem length_lines_append_break (text : String) :
    (lines (text ++ "\n")).length = breaks text + 1 := by
  have hbreak : "\n".toList = ['\n'] := rfl
  rw [lines, List.length_map, String.toList_append, hbreak, length_linesFrom]
  rfl

/-- A text takes one line, and one more for each break in it. -/
theorem length_lines_join (texts : List String) :
    (lines (String.join (texts.map (· ++ "\n")))).length =
      texts.length + (texts.map breaks).sum := by
  induction texts with
  | nil => rfl
  | cons text rest ih =>
    rw [List.map_cons, String.join_cons, lines_append (endsLine_append_break text),
      List.length_append, length_lines_append_break, ih, List.length_cons, List.map_cons,
      List.sum_cons]
    omega

/-- Texts are the lines that they are written as just when there is no break in any of them. -/
theorem lines_join_eq_iff {texts : List String} :
    lines (String.join (texts.map (· ++ "\n"))) = texts ↔ (texts.map breaks).sum = 0 := by
  refine ⟨fun h => ?_, fun h => lines_join (sum_breaks_eq_zero_iff.1 h)⟩
  have hlength := congrArg List.length h
  rw [length_lines_join] at hlength
  omega

/-- The last line of a text whose last break is at its end. -/
theorem getLast?_lines {front line : String} (hfront : EndsLine front) (h : '\n' ∉ line.toList) :
    (lines (front ++ (line ++ "\n"))).getLast? = some line := by
  rw [lines_append hfront, lines_of_not_mem h, List.getLast?_append, List.getLast?_singleton,
    Option.some_or]

example : lines "one\n\nthree" = ["one", "", "three"] := by decide +kernel

end LocaleLint.Text
