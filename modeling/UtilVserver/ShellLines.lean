import Mathlib.Data.Char
import Mathlib.Data.List.Dedup
import Mathlib.Data.List.Lex
import UtilVserver.FileCfg

/-!
# Lines in the scripts

* `readLines` — the lines that `while read` runs its body for.
* `sortLines` — `sort -u`.

`while read` and `sort` take the lines of concatenated files one by one as long as every file ends
with a newline: `textLines_flatMap`.
-/

set_option autoImplicit false

namespace ShellLines

open CString FileCfg

/-- The lines that `while read v` runs its body for: what stands behind the last newline is read,
but the loop ends. -/
def readLines (text : Text) : List Text := (text.splitOn '\n').dropLast.map trim

/-- The lines of a file whose last line may lack its newline. -/
def textLines (text : Text) : List Text :=
  if (text.splitOn '\n').getLast? = some [] then (text.splitOn '\n').dropLast
  else text.splitOn '\n'

/-- `sort -u`. -/
def sortLines (text : Text) : List Text :=
  ((textLines text).mergeSort fun a b => decide (a ≤ b)).dedup

/-- Every line has its newline. -/
def Terminated (text : Text) : Prop := text = [] ∨ ∃ body, text = body ++ ['\n']

theorem mem_sortLines {text line : Text} : line ∈ sortLines text ↔ line ∈ textLines text := by
  rw [sortLines, List.mem_dedup, List.mem_mergeSort]

theorem Terminated.splitOn {text : Text} (h : Terminated text) (rest : Text) :
    (text ++ rest).splitOn '\n' = (text.splitOn '\n').dropLast ++ rest.splitOn '\n' := by
  rcases h with rfl | ⟨body, rfl⟩
  · rfl
  · rw [List.append_assoc, List.singleton_append, List.splitOn_append_cons_self,
      List.splitOn_append_cons_self, List.splitOn_nil, List.dropLast_concat]

theorem Terminated.textLines {text : Text} (h : Terminated text) :
    textLines text = (text.splitOn '\n').dropLast := by
  rw [ShellLines.textLines, if_pos]
  have hsplit := h.splitOn []
  rw [List.append_nil, List.splitOn_nil] at hsplit
  rw [hsplit, List.getLast?_concat]

theorem Terminated.append {text rest : Text} (h : Terminated text) (h' : Terminated rest) :
    Terminated (text ++ rest) := by
  rcases h' with rfl | ⟨body, rfl⟩
  · rwa [List.append_nil]
  · exact .inr ⟨text ++ body, (List.append_assoc ..).symm⟩

theorem Terminated.textLines_append {text rest : Text} (h : Terminated text)
    (h' : Terminated rest) :
    ShellLines.textLines (text ++ rest) =
      ShellLines.textLines text ++ ShellLines.textLines rest := by
  rw [(h.append h').textLines, h.textLines, h'.textLines, h.splitOn,
    List.dropLast_append_of_ne_nil (List.splitOn_ne_nil _ _)]

/-- The lines of a sequence of terminated files. -/
theorem textLines_flatMap {ι : Type*} (f : ι → Text) :
    ∀ (is : List ι), (∀ i ∈ is, Terminated (f i)) →
      Terminated (is.flatMap f) ∧ textLines (is.flatMap f) = is.flatMap fun i => textLines (f i)
  | [], _ => ⟨.inl rfl, rfl⟩
  | i :: is, h => by
    obtain ⟨hterm, hlines⟩ := textLines_flatMap f is fun j hj => h j (List.mem_cons_of_mem i hj)
    have hi := h i List.mem_cons_self
    rw [List.flatMap_cons, List.flatMap_cons, ← hlines]
    exact ⟨hi.append hterm, hi.textLines_append hterm⟩

/-- A line of its own. -/
theorem textLines_line {line : Text} (h : '\n' ∉ line) (rest : Text) (hr : Terminated rest) :
    textLines (line ++ '\n' :: rest) = line :: textLines rest := by
  have hline : Terminated (line ++ ['\n']) := .inr ⟨line, rfl⟩
  have hone : textLines (line ++ ['\n']) = [line] := by
    rw [hline.textLines, List.splitOn_append_cons_self, List.splitOn_nil, List.dropLast_concat,
      List.splitOn_eq_singleton h]
  rw [← List.singleton_append, ← List.append_assoc, hline.textLines_append hr, hone]
  rfl

theorem Terminated.readLines {text : Text} (h : Terminated text) :
    readLines text = (ShellLines.textLines text).map trim := by
  rw [h.textLines, ShellLines.readLines]

end ShellLines
