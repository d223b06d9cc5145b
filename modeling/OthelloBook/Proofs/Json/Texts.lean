import OthelloBook.Proofs.Json.Floats
import OthelloBook.Proofs.Json.Strings

/-!
# Values are read back from their texts

The reader makes of the text of a value just this value, if its integers fit a word, with the numeral
of each float in place of the float. It takes no more of a longer text than the value, so that arrays
and objects are read back item by item and member by member.
-/
namespace OthelloBook.Json

open Draft Literal

def numeral (x : Float) : Literal :=
  ((read? (Decimal.text x).toList).map Prod.fst).getD ⟨false, [], [], none⟩

theorem read?_text (x : Float) : read? (Decimal.text x).toList = some (numeral x, []) := by
  obtain ⟨l, hl⟩ := Decimal.exists_read?_text x
  rw [numeral, hl]
  rfl

mutual

/-- What is read where a value is written: floats are read as their numerals say. -/
def reading : Json → Draft
  | .null => .null
  | .bool b => .bool b
  | .int n => .number (.int n)
  | .real x => .number (numeral x).number
  | .str s => .str (some s)
  | .arr items => .arr (itemReadings items) true
  | .obj members => .obj (memberReadings members) true

def itemReadings : List Json → List Draft
  | [] => []
  | v :: vs => v.reading :: itemReadings vs

def memberReadings : List (String × Json) → List (Option String × Draft)
  | [] => []
  | (k, v) :: rest => (some k, v.reading) :: memberReadings rest

end

inductive InRange : Json → Prop
  | null : InRange .null
  | bool (b : Bool) : InRange (.bool b)
  | int {n : ℤ} (h : Fits n) : InRange (.int n)
  | real (x : Float) : InRange (.real x)
  | str (s : String) : InRange (.str s)
  | arr {items : List Json} (h : ∀ v ∈ items, InRange v) : InRange (.arr items)
  | obj {members : List (String × Json)} (h : ∀ m ∈ members, InRange m.2) : InRange (.obj members)

theorem isWhole_reading (v : Json) : v.reading.isWhole = true := by
  cases v <;> rfl

section Heads

variable {c : Char} {cs rest : List Char} {l : Literal} {fuel : ℕ}

theorem skipSpace_cons (h : isSpace c = false) (cs : List Char) :
    skipSpace (c :: cs) = c :: cs := by
  rw [skipSpace, List.dropWhile_cons_of_neg (by simp [h])]

/-- A numeral begins with a digit or a sign. -/
theorem exists_head_of_read? (h : read? cs = some (l, rest)) :
    ∃ c tail, cs = c :: tail ∧ (c.isDigit = true ∨ c = '-') := by
  cases cs with
  | nil => cases h
  | cons c tail =>
    refine ⟨c, tail, rfl, ?_⟩
    by_contra hhead
    rw [not_or, Bool.not_eq_true] at hhead
    have hwhole : readWhole? (c :: tail) = none := by simp [readWhole?, digits, hhead.1]
    rw [read?_of_ne_minus (by simpa using hhead.2), readParts?, hwhole] at h
    cases h

theorem ne_of_numeral_head {d : Char} (hc : c.isDigit = true ∨ c = '-')
    (hd : d.isDigit = false ∧ d ≠ '-') : c ≠ d := by
  rintro rfl
  rcases hc with hc | hc
  · rw [hd.1] at hc
    cases hc
  · exact hd.2 hc

theorem isSpace_numeral_head (hc : c.isDigit = true ∨ c = '-') : isSpace c = false := by
  simp only [isSpace, Bool.or_eq_false_iff, decide_eq_false_iff_not]
  exact ⟨⟨⟨ne_of_numeral_head hc (by decide), ne_of_numeral_head hc (by decide)⟩,
    ne_of_numeral_head hc (by decide)⟩, ne_of_numeral_head hc (by decide)⟩

theorem value_numeral (h : read? cs = some (l, [])) (hrest : Stops rest) (fuel : ℕ) :
    value (fuel + 1) (cs ++ rest) = (.number l.number, rest) := by
  have hread : read? (cs ++ rest) = some (l, rest) := by rw [read?_append hrest, h]; rfl
  obtain ⟨c, tail, rfl, hc⟩ := exists_head_of_read? h
  have hne : ∀ d, d.isDigit = false ∧ d ≠ '-' → ∀ r, c :: (tail ++ rest) ≠ d :: r :=
    fun d hd r heq => ne_of_numeral_head hc hd (List.cons.inj heq).1
  rw [value, List.cons_append, skipSpace_cons (isSpace_numeral_head hc)]
  split
  case h_7 => rw [← List.cons_append, hread]
  all_goals
    rename_i r heq
    exact absurd heq (hne _ (by decide) r)

theorem value_string (s : String) (rest : List Char) (fuel : ℕ) :
    value (fuel + 1) (quoted s ++ rest) = (.str (some s), rest) := by
  have hquoted : quoted s ++ rest = '"' :: (s.toList.flatMap escapedChar ++ '"' :: rest) := by
    simp [quoted]
  rw [hquoted, value, skipSpace_cons (by decide)]
  simp only [string?_escaped]

theorem value_array {items : List Draft} (hcs : isSpace c = false ∧ c ≠ ']')
    (h : Draft.items fuel (c :: cs) = (items, true, rest)) :
    value (fuel + 1) ('[' :: c :: cs) = (.arr items true, rest) := by
  rw [value, skipSpace_cons (by decide)]
  simp only [skipSpace_cons hcs.1]
  split
  · rename_i r heq
    exact absurd (List.cons.inj heq).1 hcs.2
  · rw [h]

theorem value_object {members : List (Option String × Draft)}
    (h : Draft.members fuel ('"' :: cs) = (members, true, rest)) :
    value (fuel + 1) ('\x7b' :: '"' :: cs) = (.obj members true, rest) := by
  have hquote : isSpace '"' = false := by decide
  rw [value, skipSpace_cons (by decide)]
  simp only [skipSpace_cons hquote]
  split
  · rename_i r heq
    cases heq
  · rw [h]

end Heads

section Values

variable {rest : List Char} {fuel : ℕ}

/-- The text of a value is read as this value, and what follows it is left. -/
def ReadBack (v : Json) : Prop :=
  ∀ fuel rest, Stops rest → 2 * v.chars.length ≤ fuel →
    value fuel (v.chars ++ rest) = (v.reading, rest)

theorem itemChars_cons_cons (v w : Json) (vs : List Json) :
    itemChars (v :: w :: vs) = v.chars ++ ',' :: itemChars (w :: vs) := by
  rw [itemChars]
  simp

theorem memberChars_cons_cons (k : String) (v : Json) (m : String × Json)
    (ms : List (String × Json)) :
    memberChars ((k, v) :: m :: ms) = quoted k ++ ':' :: v.chars ++ ',' :: memberChars (m :: ms) := by
  rw [memberChars]
  simp

theorem items_itemChars {vs : List Json} (hne : vs ≠ []) (h : ∀ v ∈ vs, ReadBack v)
    (hfuel : 2 * (itemChars vs).length ≤ fuel) :
    Draft.items fuel (itemChars vs ++ rest) = (itemReadings vs, true, rest) := by
  induction vs generalizing fuel with
  | nil => exact absurd rfl hne
  | cons v vs ih =>
    obtain ⟨hv, hvs⟩ := List.forall_mem_cons.1 h
    cases vs with
    | nil =>
      rw [itemChars, List.length_append, List.length_singleton] at hfuel
      obtain ⟨fuel, rfl⟩ : ∃ n, fuel = n + 1 := ⟨fuel - 1, by omega⟩
      have hvalue := hv fuel (']' :: rest) (stops_cons (by simp) rest) (by omega)
      have hspace : skipSpace (']' :: rest) = ']' :: rest := skipSpace_cons (by decide) _
      rw [itemChars, List.append_assoc, List.singleton_append, Draft.items, hvalue]
      simp only [isWhole_reading, hspace]
      rfl
    | cons w vs =>
      rw [itemChars_cons_cons, List.length_append, List.length_cons] at hfuel
      obtain ⟨fuel, rfl⟩ : ∃ n, fuel = n + 1 := ⟨fuel - 1, by omega⟩
      have hvalue := hv fuel (',' :: (itemChars (w :: vs) ++ rest)) (stops_cons (by simp) _)
        (by omega)
      have hspace : skipSpace (',' :: (itemChars (w :: vs) ++ rest)) =
          ',' :: (itemChars (w :: vs) ++ rest) := skipSpace_cons (by decide) _
      rw [itemChars_cons_cons, List.append_assoc, List.cons_append, Draft.items, hvalue]
      simp only [isWhole_reading, hspace]
      rw [ih (by simp) hvs (by omega)]
      rfl

/-- A member is read up to what follows its value. -/
theorem members_member (k : String) {v : Json} (hv : ReadBack v) (hrest : Stops rest)
    (hfuel : 2 * v.chars.length ≤ fuel) :
    ∃ r, skipSpace (quoted k ++ ':' :: (v.chars ++ rest)) = '"' :: r ∧
      string? r = some (some k, ':' :: (v.chars ++ rest)) ∧
      skipSpace (':' :: (v.chars ++ rest)) = ':' :: (v.chars ++ rest) ∧
      value fuel (v.chars ++ rest) = (v.reading, rest) := by
  have hquoted : quoted k ++ ':' :: (v.chars ++ rest) =
      '"' :: (k.toList.flatMap escapedChar ++ '"' :: ':' :: (v.chars ++ rest)) := by
    simp [quoted]
  rw [hquoted]
  exact ⟨_, skipSpace_cons (by decide) _, string?_escaped k _, skipSpace_cons (by decide) _,
    hv fuel rest hrest hfuel⟩

theorem members_memberChars {ms : List (String × Json)} (hne : ms ≠ [])
    (h : ∀ m ∈ ms, ReadBack m.2) (hfuel : 2 * (memberChars ms).length ≤ fuel) :
    Draft.members fuel (memberChars ms ++ rest) = (memberReadings ms, true, rest) := by
  induction ms generalizing fuel with
  | nil => exact absurd rfl hne
  | cons m ms ih =>
    obtain ⟨k, v⟩ := m
    obtain ⟨hv, hms⟩ := List.forall_mem_cons.1 h
    have hv : ReadBack v := hv
    cases ms with
    | nil =>
      simp only [memberChars, List.length_append, List.length_cons, List.length_nil] at hfuel
      obtain ⟨fuel, rfl⟩ : ∃ n, fuel = n + 1 := ⟨fuel - 1, by omega⟩
      have hle : 2 * v.chars.length ≤ fuel := by omega
      obtain ⟨r, hquote, hstring, hcolon, hvalue⟩ :=
        members_member k hv (stops_cons (c := '\x7d') (by simp) rest) hle
      have hspace : skipSpace ('\x7d' :: rest) = '\x7d' :: rest := skipSpace_cons (by decide) _
      rw [memberChars, List.append_assoc, List.append_assoc, List.cons_append,
        List.singleton_append, Draft.members, hquote]
      simp only [hstring, hcolon, hvalue, isWhole_reading, hspace]
      rfl
    | cons m ms =>
      simp only [memberChars_cons_cons, List.length_append, List.length_cons] at hfuel
      obtain ⟨fuel, rfl⟩ : ∃ n, fuel = n + 1 := ⟨fuel - 1, by omega⟩
      have hle : 2 * v.chars.length ≤ fuel := by omega
      obtain ⟨r, hquote, hstring, hcolon, hvalue⟩ :=
        members_member k hv (stops_cons (c := ',') (by simp) (memberChars (m :: ms) ++ rest)) hle
      have hspace : skipSpace (',' :: (memberChars (m :: ms) ++ rest)) =
          ',' :: (memberChars (m :: ms) ++ rest) := skipSpace_cons (by decide) _
      rw [memberChars_cons_cons, List.append_assoc, List.append_assoc, List.cons_append,
        List.cons_append, Draft.members, hquote]
      simp only [hstring, hcolon, hvalue, isWhole_reading, hspace]
      rw [ih (by simp) hms (by omega)]
      rfl

theorem InRange.exists_head {v : Json} (h : v.InRange) :
    ∃ c cs, v.chars = c :: cs ∧ isSpace c = false ∧ c ≠ ']' := by
  have hnumeral : ∀ {cs : List Char} {l : Literal}, read? cs = some (l, []) →
      ∃ c tail, cs = c :: tail ∧ isSpace c = false ∧ c ≠ ']' := by
    intro cs l hl
    obtain ⟨c, tail, hcs, hc⟩ := exists_head_of_read? hl
    exact ⟨c, tail, hcs, isSpace_numeral_head hc, ne_of_numeral_head hc (by decide)⟩
  cases h with
  | null => exact ⟨_, _, rfl, by decide, by decide⟩
  | bool b => cases b <;> exact ⟨_, _, rfl, by decide, by decide⟩
  | int hn =>
    obtain ⟨l, hl, -⟩ := exists_read?_toString hn
    rw [chars]
    exact hnumeral hl
  | real x =>
    rw [chars]
    exact hnumeral (read?_text x)
  | str s => exact ⟨_, _, rfl, by decide, by decide⟩
  | arr => exact ⟨_, _, by rw [chars], by decide, by decide⟩
  | obj => exact ⟨_, _, by rw [chars], by decide, by decide⟩

theorem InRange.readBack_of_step {v : Json} (h : v.InRange)
    (hstep : ∀ fuel rest, Stops rest → 2 * v.chars.length ≤ fuel + 1 →
      value (fuel + 1) (v.chars ++ rest) = (v.reading, rest)) : ReadBack v := by
  intro fuel rest hrest hfuel
  -- A text has a first character, so that there is a step for it.
  obtain ⟨c, cs, hchars, -⟩ := h.exists_head
  have hlength : v.chars.length = cs.length + 1 := by rw [hchars, List.length_cons]
  obtain ⟨fuel, rfl⟩ : ∃ n, fuel = n + 1 := ⟨fuel - 1, by omega⟩
  exact hstep fuel rest hrest hfuel

/-- Every value whose integers fit a word is read back from its text. -/
theorem InRange.readBack {v : Json} (h : v.InRange) : ReadBack v := by
  -- On the value: the items of an array and the members of an object are read back before it.
  induction h with
  | null => exact InRange.null.readBack_of_step fun _ _ _ _ => rfl
  | bool b => cases b <;> exact (InRange.bool _).readBack_of_step fun _ _ _ _ => rfl
  | @int n hn =>
    refine (InRange.int hn).readBack_of_step fun fuel rest hrest _ => ?_
    obtain ⟨l, hl, hnumber⟩ := exists_read?_toString hn
    rw [chars, value_numeral hl hrest, hnumber]
    rfl
  | real x =>
    refine (InRange.real x).readBack_of_step fun fuel rest hrest _ => ?_
    rw [chars, value_numeral (read?_text x) hrest]
    rfl
  | str s => exact (InRange.str s).readBack_of_step fun fuel rest _ _ => value_string s rest fuel
  | @arr items h ih =>
    refine (InRange.arr h).readBack_of_step fun fuel rest _ hfuel => ?_
    cases items with
    | nil => rfl
    | cons v vs =>
      obtain ⟨c, cs, hcs, hspace, hclose⟩ : ∃ c cs, itemChars (v :: vs) ++ rest = c :: cs ∧
          isSpace c = false ∧ c ≠ ']' := by
        obtain ⟨c, cs, hcs, hc⟩ := (h v List.mem_cons_self).exists_head
        cases vs <;> simp [itemChars, hcs, hc]
      rw [chars, List.length_cons] at hfuel
      have hitems : Draft.items fuel (itemChars (v :: vs) ++ rest) =
          (itemReadings (v :: vs), true, rest) := items_itemChars (by simp) ih (by omega)
      rw [hcs] at hitems
      rw [chars, List.cons_append, hcs, value_array ⟨hspace, hclose⟩ hitems, reading]
  | @obj members h ih =>
    refine (InRange.obj h).readBack_of_step fun fuel rest _ hfuel => ?_
    cases members with
    | nil => rfl
    | cons m ms =>
      obtain ⟨cs, hcs⟩ : ∃ cs, memberChars (m :: ms) ++ rest = '"' :: cs := by
        cases ms <;> simp [memberChars, quoted]
      rw [chars, List.length_cons] at hfuel
      have hmembers : Draft.members fuel (memberChars (m :: ms) ++ rest) =
          (memberReadings (m :: ms), true, rest) := members_memberChars (by simp) ih (by omega)
      rw [hcs] at hmembers
      rw [chars, List.cons_append, hcs, value_object hmembers, reading]

/-- A value is read back from its text, and nothing is left of it. -/
theorem ofText_text {v : Json} (h : v.InRange) : ofText v.text = (v.reading, true) := by
  have hread := h.readBack (2 * v.chars.length + 2) [] stops_nil (by omega)
  rw [List.append_nil] at hread
  rw [ofText, text, String.toList_ofList]
  simp only [hread]
  rfl

end Values

end OthelloBook.Json
