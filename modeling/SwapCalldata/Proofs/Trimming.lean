import Mathlib.Data.List.TakeWhile
import SwapCalldata.Text.Blank

/-!
What is left of a text when it is trimmed. A trimmed text is read exactly where the text itself is
one of the readable texts wrapped in blank characters, as long as none of these starts or ends with
a blank character of its own.
-/
namespace SwapCalldata.Text

variable {text before after : List Char}

/-- Blank characters only. -/
def Blanks (text : List Char) : Prop := ∀ c ∈ text, isBlank c = true

/-- Neither the first nor the last character is blank. -/
structure Tight (text : List Char) : Prop where
  first : ∀ c ∈ text.head?, isBlank c = false
  last : ∀ c ∈ text.getLast?, isBlank c = false

/-- The text has the property once blank characters around it are taken away. -/
def Wrapped (P : List Char → Prop) (text : List Char) : Prop :=
  ∃ before core after, text = before ++ core ++ after ∧ Blanks before ∧ Blanks after ∧ P core

theorem trim_blanks_append (h : Blanks before) (text : List Char) :
    trim (before ++ text) = trim text := by
  unfold trim
  rw [List.dropWhile_append_of_pos h]

theorem trim_append_blanks (text : List Char) (h : Blanks after) :
    trim (text ++ after) = trim text := by
  have hreverse : ∀ c ∈ after.reverse, isBlank c = true := fun c hc => h c (List.mem_reverse.mp hc)
  unfold trim
  rw [List.dropWhile_append]
  split
  next hempty =>
    rw [List.dropWhile_eq_nil_iff.mpr h, List.isEmpty_iff.mp hempty]
  next => rw [List.reverse_append, List.dropWhile_append_of_pos hreverse]

theorem exists_eq_append_trim (text : List Char) :
    ∃ before after, text = before ++ trim text ++ after ∧ Blanks before ∧ Blanks after := by
  refine ⟨text.takeWhile isBlank, ((text.dropWhile isBlank).reverse.takeWhile isBlank).reverse,
    ?_, fun c hc => List.mem_takeWhile_imp hc,
    fun c hc => List.mem_takeWhile_imp (List.mem_reverse.mp hc)⟩
  unfold trim
  rw [List.append_assoc, ← List.reverse_append, List.takeWhile_append_dropWhile,
    List.reverse_reverse, List.takeWhile_append_dropWhile]

/-- Trimming finds the part with the property. -/
theorem wrapped_iff {P : List Char → Prop} (htight : ∀ core, P core → Tight core) :
    Wrapped P text ↔ P (trim text) := by
  constructor
  · rintro ⟨before, core, after, rfl, hbefore, hafter, hcore⟩
    obtain ⟨hfirst, hlast⟩ := htight core hcore
    rwa [List.append_assoc, trim_blanks_append hbefore, trim_append_blanks core hafter,
      trim_eq_self hfirst hlast]
  · intro hcore
    obtain ⟨before, after, htext, hbefore, hafter⟩ := exists_eq_append_trim text
    exact ⟨before, trim text, after, htext, hbefore, hafter, hcore⟩

/-- A text of characters that are not blank is tight. -/
theorem Tight.of_not_blank (h : ∀ c ∈ text, isBlank c = false) : Tight text :=
  ⟨fun c hc => h c (List.mem_of_mem_head? hc), fun c hc => h c (List.mem_of_mem_getLast? hc)⟩

end SwapCalldata.Text
