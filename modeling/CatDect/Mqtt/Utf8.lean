import Mathlib.Data.List.Forall2
import Mathlib.Tactic.Common

/-!
# Which strings are text

`UTF8_validateString` is asked for every topic before it is sent or subscribed to.  It looks
each character up in a table of byte ranges.  The table is complete: the strings accepted are
those that some list of characters is encoded as.
-/

namespace CatDect.Mqtt

/-! ## The code -/

/-- The rows of `valid_ranges`: the lower and the upper limit of each byte of a character.
`len` is the length of the row. -/
def validRanges : List (List (UInt8 × UInt8)) :=
  [[(0x00, 0x7F)],
    [(0xC2, 0xDF), (0x80, 0xBF)],
    [(0xE0, 0xE0), (0xA0, 0xBF), (0x80, 0xBF)],
    [(0xE1, 0xEC), (0x80, 0xBF), (0x80, 0xBF)],
    [(0xED, 0xED), (0x80, 0x9F), (0x80, 0xBF)],
    [(0xEE, 0xEF), (0x80, 0xBF), (0x80, 0xBF)],
    [(0xF0, 0xF0), (0x90, 0xBF), (0x80, 0xBF), (0x80, 0xBF)],
    [(0xF1, 0xF3), (0x80, 0xBF), (0x80, 0xBF), (0x80, 0xBF)],
    [(0xF4, 0xF4), (0x80, 0x8F), (0x80, 0xBF), (0x80, 0xBF)]]

/-- The loop over `j`; `none` if it reads past the end of the data. -/
def inRow : List (UInt8 × UInt8) → List UInt8 → Option Bool
  | [], _ => some true
  | _ :: _, [] => none
  | (lower, upper) :: row, c :: data =>
      if c < lower ∨ upper < c then some false else inRow row data

def inSomeRow (charlen : ℕ) (data : List UInt8) : List (List (UInt8 × UInt8)) → Option Bool
  | [] => some false
  | row :: rows =>
      if row.length = charlen then
        (inRow row data).bind fun good =>
          if good then some true else inSomeRow charlen data rows
      else inSomeRow charlen data rows

def charLen (c : UInt8) : ℕ :=
  if c &&& 128 = 0 then 1
  else if c &&& 0xF0 = 0xF0 then 4
  else if c &&& 0xE0 = 0xE0 then 3
  else 2

/-- `UTF8_char_validate`.  A pointer is what it points at; the null pointer is the inner
`none`. -/
def utf8CharValidate (len : ℕ) : List UInt8 → Option (Option (List UInt8))
  | [] => none
  | c :: data =>
      if len < charLen c then some none
      else (inSomeRow (charLen c) (c :: data) validRanges).map fun good =>
        if good then some ((c :: data).drop (charLen c)) else none

/-- The `while` loop of `UTF8_validate`; `none` if it goes on after `rounds` rounds. -/
def validateLoop : ℕ → Option (List UInt8) → Option (Option (List UInt8))
  | _, none => some none
  | _, some [] => some (some [])
  | 0, some (_ :: _) => none
  | rounds + 1, some (c :: data) =>
      (utf8CharValidate (c :: data).length (c :: data)).bind (validateLoop rounds)

def utf8Validate (data : List UInt8) : Option Bool :=
  if data.length = 0 then some true
  else
    (utf8CharValidate data.length data).bind fun curdata =>
      (validateLoop data.length curdata).map Option.isSome

/-- `UTF8_validateString`; `none` is the null pointer. -/
def utf8ValidateString : Option (List UInt8) → Option Bool
  | none => some false
  | some string => utf8Validate string

/-! ## The table -/

/-- The bytes are what some list of characters is encoded as. -/
def IsText (data : List UInt8) : Prop :=
  ∃ text : List Char, data = text.flatMap String.utf8EncodeChar

def InRanges : List (UInt8 × UInt8) → List UInt8 → Prop :=
  List.Forall₂ fun range c => range.1 ≤ c ∧ c ≤ range.2

def InTable (l : List UInt8) : Prop := ∃ row ∈ validRanges, InRanges row l

theorem inRow_spec {row : List (UInt8 × UInt8)} {data : List UInt8}
    (hlen : row.length ≤ data.length) :
    ∃ good, inRow row data = some good ∧ (good = true ↔ InRanges row (data.take row.length)) := by
  induction row generalizing data with
  | nil => exact ⟨true, rfl, by simp [InRanges]⟩
  | cons range row ih =>
      cases data with
      | nil => exact absurd hlen (by simp)
      | cons c data =>
          obtain ⟨good, hgood, hiff⟩ := ih (Nat.le_of_succ_le_succ hlen)
          by_cases hout : c < range.1 ∨ range.2 < c
          · refine ⟨false, if_pos hout, ?_⟩
            rw [List.length_cons, List.take_succ_cons, InRanges, List.forall₂_cons]
            rcases hout with hlow | hhigh
            · simp [UInt8.not_le.mpr hlow]
            · simp [UInt8.not_le.mpr hhigh]
          · refine ⟨good, (if_neg hout).trans hgood, ?_⟩
            rw [not_or, UInt8.not_lt, UInt8.not_lt] at hout
            rw [hiff, List.length_cons, List.take_succ_cons, InRanges, List.forall₂_cons]
            exact (and_iff_right hout).symm

theorem inSomeRow_spec {charlen : ℕ} {data : List UInt8} (hlen : charlen ≤ data.length)
    (rows : List (List (UInt8 × UInt8))) :
    ∃ good, inSomeRow charlen data rows = some good ∧
      (good = true ↔ ∃ row ∈ rows, InRanges row (data.take charlen)) := by
  induction rows with
  | nil => exact ⟨false, rfl, by simp⟩
  | cons row rows ih =>
      obtain ⟨good, hgood, hiff⟩ := ih
      by_cases hrow : row.length = charlen
      · obtain ⟨here, hhere, hin⟩ := inRow_spec (Nat.le_trans (Nat.le_of_eq hrow) hlen)
        rw [hrow] at hin
        cases here with
        | true =>
            refine ⟨true, ?_, ?_⟩
            · rw [inSomeRow, if_pos hrow, hhere]
              rfl
            · simp [hin.mp rfl]
        | false =>
            refine ⟨good, ?_, ?_⟩
            · rw [inSomeRow, if_pos hrow, hhere]
              exact hgood
            · have hnot : ¬InRanges row (data.take charlen) := fun h => nomatch hin.mpr h
              simp [hiff, hnot]
      · refine ⟨good, (if_neg hrow).trans hgood, ?_⟩
        have hnot : ¬InRanges row (data.take charlen) := by
          intro h
          apply hrow
          rw [h.length_eq, List.length_take, Nat.min_eq_left hlen]
        simp [hiff, hnot]

theorem charLen_eq (c : UInt8) :
    charLen c = if c.toNat < 128 then 1 else if c.toNat < 224 then 2
      else if c.toNat < 240 then 3 else 4 := by
  have hall : ∀ n : Fin 256, charLen (UInt8.ofNat n) =
      if n.val < 128 then 1 else if n.val < 224 then 2 else if n.val < 240 then 3 else 4 := by
    decide +kernel
  have h := hall ⟨c.toNat, c.toNat_lt⟩
  rw [UInt8.ofNat_toNat] at h
  exact h

/-! ## The table against the encoding -/

theorem inTable_one_iff {c : UInt8} : InTable [c] ↔ c.toNat < 128 := by
  simp [InTable, validRanges, InRanges, UInt8.le_iff_toNat_le]
  omega

theorem inTable_two_iff {c x : UInt8} : InTable [c, x] ↔
    (0xC2 ≤ c.toNat ∧ c.toNat < 0xE0) ∧ (0x80 ≤ x.toNat ∧ x.toNat < 0xC0) := by
  simp [InTable, validRanges, InRanges, UInt8.le_iff_toNat_le]
  omega

theorem inTable_three_iff {c x y : UInt8} : InTable [c, x, y] ↔
    (0xE0 ≤ c.toNat ∧ c.toNat < 0xF0) ∧ (0x80 ≤ x.toNat ∧ x.toNat < 0xC0) ∧
      (0x80 ≤ y.toNat ∧ y.toNat < 0xC0) ∧ (c.toNat = 0xE0 → 0xA0 ≤ x.toNat) ∧
      (c.toNat = 0xED → x.toNat < 0xA0) := by
  simp [InTable, validRanges, InRanges, UInt8.le_iff_toNat_le]
  omega

theorem inTable_four_iff {c x y z : UInt8} : InTable [c, x, y, z] ↔
    (0xF0 ≤ c.toNat ∧ c.toNat < 0xF5) ∧ (0x80 ≤ x.toNat ∧ x.toNat < 0xC0) ∧
      (0x80 ≤ y.toNat ∧ y.toNat < 0xC0) ∧ (0x80 ≤ z.toNat ∧ z.toNat < 0xC0) ∧
      (c.toNat = 0xF0 → 0x90 ≤ x.toNat) ∧ (c.toNat = 0xF4 → x.toNat < 0x90) := by
  simp [InTable, validRanges, InRanges, UInt8.le_iff_toNat_le]
  omega

theorem byte_eq {n : ℕ} {c : UInt8} (h : n = c.toNat) : UInt8.ofNat n = c := by
  rw [h, UInt8.ofNat_toNat]

theorem exists_char {v : ℕ} (hlt : v < 1114112) (hsurrogate : v < 0xD800 ∨ 0xDFFF < v) :
    ∃ ch : Char, ch.val.toNat = v := by
  have hvalid : v.isValidChar := by
    rcases hsurrogate with hlow | hhigh
    · exact .inl hlow
    · exact .inr ⟨hhigh, hlt⟩
  exact ⟨Char.ofNatAux v hvalid, rfl⟩

theorem encodes_one {c : UInt8} (h : InTable [c]) :
    ∃ ch : Char, [c] = String.utf8EncodeChar ch := by
  rw [inTable_one_iff] at h
  obtain ⟨ch, hch⟩ := exists_char (v := c.toNat) (by omega) (.inl (by omega))
  refine ⟨ch, ?_⟩
  unfold String.utf8EncodeChar
  dsimp only
  rw [if_pos (by omega), byte_eq hch]

theorem encodes_two {c x : UInt8} (h : InTable [c, x]) :
    ∃ ch : Char, [c, x] = String.utf8EncodeChar ch := by
  rw [inTable_two_iff] at h
  obtain ⟨ch, hch⟩ := exists_char (v := (c.toNat - 0xC0) * 64 + (x.toNat - 0x80))
    (by omega) (.inl (by omega))
  refine ⟨ch, ?_⟩
  unfold String.utf8EncodeChar
  dsimp only
  rw [if_neg (by omega), if_pos (by omega), byte_eq (c := c) (by omega),
    byte_eq (c := x) (by omega)]

theorem encodes_three {c x y : UInt8} (h : InTable [c, x, y]) :
    ∃ ch : Char, [c, x, y] = String.utf8EncodeChar ch := by
  rw [inTable_three_iff] at h
  obtain ⟨ch, hch⟩ := exists_char
    (v := (c.toNat - 0xE0) * 4096 + (x.toNat - 0x80) * 64 + (y.toNat - 0x80))
    (by omega) (by omega)
  refine ⟨ch, ?_⟩
  unfold String.utf8EncodeChar
  dsimp only
  rw [if_neg (by omega), if_neg (by omega), if_pos (by omega), byte_eq (c := c) (by omega),
    byte_eq (c := x) (by omega), byte_eq (c := y) (by omega)]

theorem encodes_four {c x y z : UInt8} (h : InTable [c, x, y, z]) :
    ∃ ch : Char, [c, x, y, z] = String.utf8EncodeChar ch := by
  rw [inTable_four_iff] at h
  obtain ⟨ch, hch⟩ := exists_char
    (v := (c.toNat - 0xF0) * 262144 + (x.toNat - 0x80) * 4096 + (y.toNat - 0x80) * 64 +
      (z.toNat - 0x80))
    (by omega) (.inr (by omega))
  refine ⟨ch, ?_⟩
  unfold String.utf8EncodeChar
  dsimp only
  rw [if_neg (by omega), if_neg (by omega), if_neg (by omega), byte_eq (c := c) (by omega),
    byte_eq (c := x) (by omega), byte_eq (c := y) (by omega), byte_eq (c := z) (by omega)]

theorem InTable.encodes {l : List UInt8} (h : InTable l) :
    ∃ ch : Char, l = String.utf8EncodeChar ch := by
  match l, h with
  | [], h => simp [InTable, validRanges, InRanges] at h
  | [_], h => exact encodes_one h
  | [_, _], h => exact encodes_two h
  | [_, _, _], h => exact encodes_three h
  | [_, _, _, _], h => exact encodes_four h
  | _ :: _ :: _ :: _ :: _ :: _, h => simp [InTable, validRanges, InRanges] at h

theorem InTable.length_pos {l : List UInt8} (h : InTable l) : 0 < l.length := by
  cases l with
  | nil => simp [InTable, validRanges, InRanges] at h
  | cons c l => exact Nat.succ_pos l.length

theorem InTable.charLen_eq {c : UInt8} {l : List UInt8} (h : InTable (c :: l)) :
    charLen c = (c :: l).length := by
  rw [CatDect.Mqtt.charLen_eq]
  match l, h with
  | [], h =>
      rw [inTable_one_iff] at h
      exact if_pos h
  | [_], h =>
      rw [inTable_two_iff] at h
      rw [if_neg (by omega), if_pos (by omega)]
      rfl
  | [_, _], h =>
      rw [inTable_three_iff] at h
      rw [if_neg (by omega), if_neg (by omega), if_pos (by omega)]
      rfl
  | [_, _, _], h =>
      rw [inTable_four_iff] at h
      rw [if_neg (by omega), if_neg (by omega), if_neg (by omega)]
      rfl
  | _ :: _ :: _ :: _ :: _, h => simp [InTable, validRanges, InRanges] at h

theorem inTable_encode (ch : Char) : InTable (String.utf8EncodeChar ch) := by
  have hvalid : ch.val.toNat < 0xD800 ∨ 0xDFFF < ch.val.toNat ∧ ch.val.toNat < 1114112 := ch.valid
  unfold String.utf8EncodeChar
  dsimp only
  split
  · rw [inTable_one_iff]
    simp only [UInt8.toNat_ofNat']
    omega
  split
  · rw [inTable_two_iff]
    simp only [UInt8.toNat_ofNat']
    omega
  split
  · rw [inTable_three_iff]
    simp only [UInt8.toNat_ofNat']
    omega
  · rw [inTable_four_iff]
    simp only [UInt8.toNat_ofNat']
    omega

/-! ## Validation -/

theorem charLen_of_encode {c : UInt8} {data rest : List UInt8} {ch : Char}
    (h : c :: data = String.utf8EncodeChar ch ++ rest) :
    charLen c = (String.utf8EncodeChar ch).length := by
  have htable := inTable_encode ch
  revert h htable
  cases String.utf8EncodeChar ch with
  | nil =>
      intro _ htable
      simp [InTable, validRanges, InRanges] at htable
  | cons c' l =>
      intro h htable
      injection h with hc _
      subst hc
      exact htable.charLen_eq

theorem charValidate_spec (c : UInt8) (data : List UInt8) :
    ∃ next, utf8CharValidate (c :: data).length (c :: data) = some next ∧
      ∀ rest, next = some rest ↔ ∃ ch, c :: data = String.utf8EncodeChar ch ++ rest := by
  by_cases hshort : (c :: data).length < charLen c
  · refine ⟨none, if_pos hshort, fun rest => ⟨fun h => (nomatch h), fun ⟨ch, hch⟩ => ?_⟩⟩
    rw [charLen_of_encode hch, hch, List.length_append] at hshort
    omega
  · obtain ⟨good, hgood, hiff⟩ := inSomeRow_spec (Nat.le_of_not_lt hshort) validRanges
    refine ⟨if good then some ((c :: data).drop (charLen c)) else none, ?_, fun rest => ?_⟩
    · rw [utf8CharValidate, if_neg hshort, hgood]
      rfl
    constructor
    · intro hnext
      cases good with
      | false => exact nomatch hnext
      | true =>
          obtain ⟨ch, hch⟩ := InTable.encodes (hiff.mp rfl)
          refine ⟨ch, ?_⟩
          rw [← hch, ← Option.some.inj hnext]
          exact (List.take_append_drop _ _).symm
    · intro ⟨ch, hch⟩
      have htake : (c :: data).take (charLen c) = String.utf8EncodeChar ch := by
        rw [charLen_of_encode hch, hch, List.take_left']
        rfl
      have hdrop : (c :: data).drop (charLen c) = rest := by
        rw [charLen_of_encode hch, hch, List.drop_left']
        rfl
      rw [if_pos (hiff.mpr (htake ▸ inTable_encode ch)), hdrop]

theorem isText_nil : IsText [] := ⟨[], rfl⟩

theorem isText_encode_append (ch : Char) {rest : List UInt8} (h : IsText rest) :
    IsText (String.utf8EncodeChar ch ++ rest) := by
  obtain ⟨text, rfl⟩ := h
  exact ⟨ch :: text, List.flatMap_cons.symm⟩

theorem IsText.first {c : UInt8} {data : List UInt8} (h : IsText (c :: data)) :
    ∃ ch rest, c :: data = String.utf8EncodeChar ch ++ rest ∧ IsText rest := by
  obtain ⟨text, htext⟩ := h
  cases text with
  | nil => exact nomatch htext
  | cons ch text => exact ⟨ch, _, htext.trans List.flatMap_cons, text, rfl⟩

/-- From the beginning of a character, the loop ends at the end of the data if and only if
what is left is text.  Induction on the rounds; a character has at least one byte. -/
theorem validateLoop_spec (rounds : ℕ) {data : List UInt8} (hrounds : data.length ≤ rounds) :
    ∃ curdata, validateLoop rounds (some data) = some curdata ∧
      (curdata.isSome = true ↔ IsText data) := by
  induction rounds generalizing data with
  | zero =>
      obtain rfl := List.length_eq_zero_iff.mp (Nat.le_zero.mp hrounds)
      exact ⟨some [], rfl, iff_of_true rfl isText_nil⟩
  | succ rounds ih =>
      cases data with
      | nil => exact ⟨some [], rfl, iff_of_true rfl isText_nil⟩
      | cons c data =>
          obtain ⟨next, hnext, hiff⟩ := charValidate_spec c data
          rw [validateLoop, hnext, Option.bind_some]
          cases next with
          | none =>
              have hnone : validateLoop rounds none = some none := by
                unfold validateLoop
                rfl
              refine ⟨none, hnone, iff_of_false (by simp) fun h => ?_⟩
              obtain ⟨ch, rest, hch, -⟩ := h.first
              exact nomatch (hiff rest).mpr ⟨ch, hch⟩
          | some rest =>
              obtain ⟨ch, hch⟩ := (hiff rest).mp rfl
              have hpos := (inTable_encode ch).length_pos
              have hlen := congrArg List.length hch
              rw [List.length_append] at hlen
              have hshort : rest.length ≤ rounds := by omega
              obtain ⟨curdata, hloop, htext⟩ := ih hshort
              refine ⟨curdata, hloop, htext.trans ⟨fun h => ?_, fun h => ?_⟩⟩
              · rw [hch]
                exact isText_encode_append ch h
              · obtain ⟨ch', rest', hch', hrest'⟩ := h.first
                rw [Option.some.inj ((hiff rest').mpr ⟨ch', hch'⟩)]
                exact hrest'

/-- **`UTF8_validateString` accepts exactly the text.**  It never reads past the end of the
string, and it answers 1 if and only if the bytes are the encoding of a list of characters. -/
theorem validateString_iff_text (string : List UInt8) :
    ∃ good, utf8ValidateString (some string) = some good ∧ (good = true ↔ IsText string) := by
  cases string with
  | nil => exact ⟨true, rfl, iff_of_true rfl isText_nil⟩
  | cons c data =>
      obtain ⟨curdata, hloop, hiff⟩ := validateLoop_spec ((c :: data).length + 1) (Nat.le_succ _)
      refine ⟨curdata.isSome, ?_, hiff⟩
      rw [validateLoop] at hloop
      obtain ⟨next, hnext, hrest⟩ := Option.bind_eq_some_iff.mp hloop
      have hne : (c :: data).length ≠ 0 := Nat.succ_ne_zero data.length
      rw [utf8ValidateString, utf8Validate, if_neg hne, hnext, Option.bind_some, hrest]
      rfl

/-- Two of the strings of the unit tests of `utf-8.c`. -/
example : utf8ValidateString (some [0x41, 0xE2, 0x89, 0xA2, 0xCE, 0x91, 0x2E]) = some true ∧
    utf8ValidateString (some [0x2F, 0xC0, 0xAE, 0x2E, 0x2F]) = some false := by
  decide

end CatDect.Mqtt
