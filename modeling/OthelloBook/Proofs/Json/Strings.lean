import Mathlib.Tactic.SplitIfs
import OthelloBook.Json.Value
import OthelloBook.Json.Draft
import OthelloBook.Proofs.Text.Hexadecimal

/-!
# Strings are read back

Each character of a string is written as itself, as a short escape or by its number, and is read as
one piece. The pieces are put together to the string.
-/
namespace OthelloBook.Json

open Draft

def piece (c : Char) : Piece :=
  if c.toNat < 0x20 ∧ c ≠ '\n' ∧ c ≠ '\r' ∧ c ≠ '\t' then .unit c.toNat else .char c

theorem pieces?_shortEscape {c e : Char} (hc : c ≠ 'u') (he : shortEscape? c = some e)
    (cs : List Char) :
    pieces? ('\\' :: c :: cs) = (pieces? cs).map fun (ps, rest) => (.char e :: ps, rest) := by
  rw [pieces?, he]
  rintro a b c' d r rfl
  exact absurd rfl hc

theorem pieces?_control {c : Char} (h : c.toNat < 0x20) (cs : List Char) :
    pieces? ('\\' :: 'u' :: (Text.hexFixed 4 c.toNat ++ cs)) =
      (pieces? cs).map fun (ps, rest) => (.unit c.toNat :: ps, rest) := by
  have hdigits : unit? (Text.hexFixed 4 c.toNat) = some c.toNat :=
    Text.digits?_hexFixed (by decide) (by omega)
  simp only [Text.hexFixed, List.nil_append, List.cons_append] at hdigits ⊢
  rw [pieces?, hdigits]

theorem pieces?_plain {c : Char} (hquote : c ≠ '"') (hbackslash : c ≠ '\\')
    (h : ¬c.toNat < 0x20) (cs : List Char) :
    pieces? (c :: cs) = (pieces? cs).map fun (ps, rest) => (.char c :: ps, rest) := by
  rw [pieces?, if_neg (by simp [h, hbackslash])]
  · exact hquote
  · rintro a b c' d r rfl
    exact absurd rfl hbackslash
  · rintro d r rfl
    exact absurd rfl hbackslash

theorem pieces?_escapedChar (c : Char) (cs : List Char) :
    pieces? (escapedChar c ++ cs) = (pieces? cs).map fun (ps, rest) => (piece c :: ps, rest) := by
  by_cases hshort : c = '"' ∨ c = '\\' ∨ c = '\n' ∨ c = '\r' ∨ c = '\t'
  · rcases hshort with rfl | rfl | rfl | rfl | rfl <;>
      exact pieces?_shortEscape (by decide) (by decide) cs
  · simp only [not_or] at hshort
    obtain ⟨hquote, hbackslash, hnewline, hreturn, htab⟩ := hshort
    rw [escapedChar, if_neg hquote, if_neg hbackslash, if_neg hnewline, if_neg hreturn, if_neg htab,
      piece]
    by_cases hcontrol : c.toNat < 0x20
    · rw [if_pos hcontrol, if_pos ⟨hcontrol, hnewline, hreturn, htab⟩]
      exact pieces?_control hcontrol cs
    · rw [if_neg hcontrol, if_neg (mt And.left hcontrol)]
      exact pieces?_plain hquote hbackslash hcontrol cs

theorem assemble?_piece (c : Char) (ps : List Piece) :
    assemble? (piece c :: ps) = (assemble? ps).map (c :: ·) := by
  rw [piece]
  split
  · rename_i h
    have hhigh : isHighSurrogate c.toNat = false := by simp [isHighSurrogate]; omega
    have hlow : isLowSurrogate c.toNat = false := by simp [isLowSurrogate]; omega
    rw [assemble?.eq_def]
    simp [hhigh, hlow]
  · rw [assemble?]

theorem pieces?_escaped (cs rest : List Char) :
    pieces? (cs.flatMap escapedChar ++ '"' :: rest) = some (cs.map piece, rest) := by
  induction cs with
  | nil => rw [List.flatMap_nil, List.nil_append, pieces?]; rfl
  | cons c cs ih =>
    rw [List.flatMap_cons, List.append_assoc, pieces?_escapedChar, ih]
    rfl

theorem assemble?_map_piece (cs : List Char) : assemble? (cs.map piece) = some cs := by
  induction cs with
  | nil => rfl
  | cons c cs ih => rw [List.map_cons, assemble?_piece, ih]; rfl

/-- A string is read back after its opening quote. -/
theorem string?_escaped (s : String) (rest : List Char) :
    string? (s.toList.flatMap escapedChar ++ '"' :: rest) = some (some s, rest) := by
  rw [string?, pieces?_escaped, Option.map_some]
  dsimp only
  rw [assemble?_map_piece, Option.map_some, String.ofList_toList]

end OthelloBook.Json
