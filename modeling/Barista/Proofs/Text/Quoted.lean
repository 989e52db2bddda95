import Barista.Text.Quoted
import Mathlib.Tactic.SplitIfs

/-!
# Quoted text determines what it quotes

Every character is written as itself or as a backslash with one or five characters behind it, none
of which is a bare quote.  Taking the escapes apart again gives the characters back.
-/

namespace Barista
namespace Text

theorem hexDigit_ne : ∀ n < 16, hexDigit n ≠ '"' ∧ hexDigit n ≠ '\\' := by
  decide

/-- A character stands for itself, or behind a backslash stand one character of any kind and more
that are neither a quote nor a backslash. -/
theorem escape_cases (c : Char) :
    (escape c = [c] ∧ c ≠ '"' ∧ c ≠ '\\') ∨
      ∃ mark plain, escape c = '\\' :: mark :: plain ∧ ∀ c ∈ plain, c ≠ '"' ∧ c ≠ '\\' := by
  unfold escape
  split_ifs with hquote hbackslash
  · exact .inr ⟨'"', [], rfl, by simp⟩
  · exact .inr ⟨'\\', [], rfl, by simp⟩
  · exact .inr ⟨'n', [], rfl, by simp⟩
  · exact .inr ⟨'t', [], rfl, by simp⟩
  · exact .inr ⟨'r', [], rfl, by simp⟩
  · exact .inr ⟨'b', [], rfl, by simp⟩
  · exact .inr ⟨'f', [], rfl, by simp⟩
  · have hhigh := hexDigit_ne (c.toNat / 16) (by omega)
    have hlow := hexDigit_ne (c.toNat % 16) (by omega)
    exact .inr ⟨'u', _, rfl, by simp [hhigh, hlow]⟩
  · exact .inl ⟨rfl, hquote, hbackslash⟩

def hexValue (c : Char) : Nat :=
  if c.isDigit then c.toNat - '0'.toNat else c.toNat - 'a'.toNat + 10

theorem hexValue_hexDigit : ∀ n < 16, hexValue (hexDigit n) = n := by
  decide

/-- The text that the inside of a quoted text stands for. -/
def unescape : List Char → List Char
  | [] => []
  | '\\' :: 'n' :: rest => '\n' :: unescape rest
  | '\\' :: 't' :: rest => '\t' :: unescape rest
  | '\\' :: 'r' :: rest => '\r' :: unescape rest
  | '\\' :: 'b' :: rest => Char.ofNat 0x8 :: unescape rest
  | '\\' :: 'f' :: rest => Char.ofNat 0xc :: unescape rest
  | '\\' :: 'u' :: _ :: _ :: high :: low :: rest =>
    Char.ofNat (16 * hexValue high + hexValue low) :: unescape rest
  | '\\' :: c :: rest => c :: unescape rest
  | c :: rest => c :: unescape rest

theorem unescape_escape_append (c : Char) (rest : List Char) :
    unescape (escape c ++ rest) = c :: unescape rest := by
  unfold escape
  split_ifs with hquote hbackslash hn ht hr hb hf hcontrol
  · simp [unescape, hquote]
  · simp [unescape, hbackslash]
  · simp [unescape, hn]
  · simp [unescape, ht]
  · simp [unescape, hr]
  · have hc : c = Char.ofNat 0x8 := by rw [← hb, Char.ofNat_toNat]
    simp [unescape, hc]
  · have hc : c = Char.ofNat 0xc := by rw [← hf, Char.ofNat_toNat]
    simp [unescape, hc]
  · have hhigh := hexValue_hexDigit (c.toNat / 16) (by omega)
    have hlow := hexValue_hexDigit (c.toNat % 16) (by omega)
    simp [unescape, hhigh, hlow, Nat.div_add_mod]
  · simp [unescape, hbackslash]

theorem unescape_flatMap_escape (cs : List Char) : unescape (cs.flatMap escape) = cs := by
  induction cs with
  | nil => rfl
  | cons c cs ih => rw [List.flatMap_cons, unescape_escape_append, ih]

theorem quoted_injective : Function.Injective quoted := by
  intro s s' h
  have hlist := String.ofList_injective h
  have hinner := List.append_cancel_right (List.cons.inj hlist).2
  have hchars := congrArg unescape hinner
  rw [unescape_flatMap_escape, unescape_flatMap_escape] at hchars
  exact String.toList_injective hchars

end Text
end Barista
